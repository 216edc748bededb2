import RctPower.Transport.Proxy

/-!
# Which frame answers a request

No receive loop looks at the command or the id of the frame it has received, nor does
what follows it: an answer is whatever the first frame is that a device sends after the
request was written. `answers_first_frame` says so for the two clients and the proxy: what a
call returns comes from the first frame received in one of its tries, complete and with a
right CRC.

That the frame answers the request is the device's business: if the first frame received
is the answer, then what is returned is the answer, and only then
(`read_otherObject`).
-/

namespace RctPower

open RctPower.Lib.Rust

/-- A successful call has a frame to send. -/
theorem withRequest_ok {α : Type} {request : Checked (Except RctError (List UInt8))} {pooled : Bool}
    {exchange : List UInt8 → Checked (Option (Outcome α))} {out : Outcome α} {v : α}
    (h : withRequest request pooled exchange = .ok (some out)) (hv : out.result = .ok v) :
    ∃ frame, request = .ok (.ok frame) ∧ exchange frame = .ok (some out) := by
  rcases request with p | (e | frame)
  · cases h
  · obtain rfl : (⟨pooled, [], .error e⟩ : Outcome α) = out := by simpa [withRequest] using h
    cases hv
  · exact ⟨frame, rfl, h⟩

/-- **An answer is the first frame received.** What a read of either client returns is decoded
from the first frame among the bytes received in one of its tries, and what an exchange of the
proxy returns are the bytes of the first frame among those it received. -/
theorem answers_first_frame (prof : Profile) (cfg : ClientConfig) (obj : ObjectInfo) (pooled : Bool) :
    (∀ envs out v, Client.read prof cfg obj pooled envs = .ok (some out) → out.result = .ok v →
      ∃ env ∈ envs, DecodedFromFirst (ReadEvent.allBytes env.reads) obj.responseDataType v) ∧
    (∀ envs out v, AsyncClient.read prof cfg obj pooled envs = .ok (some out) → out.result = .ok v →
      ∃ env ∈ envs, DecodedFromFirst (ReadEvent.allBytes env.reads) obj.responseDataType v) ∧
    ∀ request env out resp, Proxy.exchange cfg request pooled env = .ok (some out) → out.result = .ok resp →
      ∃ body, FirstFrame (ReadEvent.allBytes env.reads) resp body := by
  refine ⟨?_, ?_, ?_⟩
  · intro envs out v h hv
    obtain ⟨frame, -, hex⟩ := withRequest_ok h hv
    obtain ⟨env, hmem, pooled', out', htry, hout'⟩ := attempts_ok hex hv
    obtain ⟨rx, hrx, hdata, hdecode⟩ := Client.tryExchange_ok htry hout'
    exact ⟨env, hmem, decodedFromFirst_iff.mpr ⟨rx, hrx, hdata, hdecode⟩⟩
  · intro envs out v h hv
    obtain ⟨frame, -, hex⟩ := withRequest_ok h hv
    obtain ⟨env, hmem, pooled', out', htry, hout'⟩ := attempts_ok hex hv
    obtain ⟨rx, hrx, hdata, hdecode⟩ := AsyncClient.tryExchange_ok htry hout'
    exact ⟨env, hmem, decodedFromFirst_iff.mpr ⟨rx, hrx, hdata, hdecode⟩⟩
  · intro request env out resp h hresp
    obtain ⟨rx, hrx, rfl⟩ := Proxy.exchange_ok h hresp
    obtain ⟨body, hframe, -⟩ := hrx.exists_frame
    exact ⟨body, hframe⟩

/-- A response with a payload of four bytes. -/
def responseTo (id : UInt32) : StdFrame := ⟨.response, id, [0, 0, 0, 4], by decide, by decide, by decide⟩

/-- A read of `power_mng.soc_strategy`, answered. -/
theorem answers_first_frame_strategy :
    (∃ env ∈ [(⟨⟨.ok true, .ok (), .ok (), .ok (), .ok (), 0⟩, [⟨0, .ok (responseTo 0xF168B748).bytes⟩]⟩ : SyncTry)],
      DecodedFromFirst (ReadEvent.allBytes env.reads) .enum (.u32 4)) ∧
    (∃ env ∈ [(⟨.ok (), .ok (), [⟨0, .ok (responseTo 0xF168B748).bytes⟩]⟩ : AsyncTry)],
      DecodedFromFirst (ReadEvent.allBytes env.reads) .enum (.u32 4)) ∧
    ∃ body, FirstFrame (responseTo 0xF168B748).bytes (responseTo 0xF168B748).bytes body := by
  have h := answers_first_frame .debug ⟨5, 1⟩ ⟨.powerMng, 0xF168B748, 835, "power_mng.soc_strategy", .enum, .enum, "",
    "SOC target selection",
    "0=SOC target = SOC|1=Constant|2=External|3=Middle battery voltage|4=Internal|5=Schedule"⟩ false
  refine ⟨?_, ?_, ?_⟩
  · exact h.1 _ ⟨true, [[0x2b, 0x01, 0x04, 0xf1, 0x68, 0xb7, 0x48, 0x57, 0xd3]], .ok (.u32 4)⟩ _ (by decide +kernel) rfl
  · exact h.2.1 _ ⟨true, [[0x2b, 0x01, 0x04, 0xf1, 0x68, 0xb7, 0x48, 0x57, 0xd3]], .ok (.u32 4)⟩ _ (by decide +kernel)
      rfl
  · have := h.2.2 [0x2b, 0x01, 0x04, 0xf1, 0x68, 0xb7, 0x48, 0x57, 0xd3]
      ⟨.ok (), .ok (), 0, [⟨0, .ok (responseTo 0xF168B748).bytes⟩]⟩
      ⟨true, [[0x2b, 0x01, 0x04, 0xf1, 0x68, 0xb7, 0x48, 0x57, 0xd3]], .ok (responseTo 0xF168B748).bytes⟩ _
      (by decide +kernel) rfl
    rwa [show ReadEvent.allBytes [(⟨0, .ok (responseTo 0xF168B748).bytes⟩ : ReadEvent (Option IoError))] =
      (responseTo 0xF168B748).bytes from List.append_nil _] at this

/-- The bytes of a frame begin with that frame. -/
theorem firstFrame_bytes (f : StdFrame) : FirstFrame f.bytes f.bytes f.body :=
  ⟨[], f.bytes.tail, [], (List.append_nil _).symm, List.not_mem_nil, rfl, unstuff_wire f.body, f.wellFormed_body⟩

/-- The id of a frame is the one in its body. -/
theorem bodyId_body (f : StdFrame) : bodyId f.body = f.id :=
  bodyId_frameBody (Command.fromByte_byte _) rfl

/-- A read of `power_mng.soc_strategy` while the device sends a response to another read, and
nothing else: both clients return its value, and the proxy its bytes. -/
theorem read_otherObject :
    ∃ obj, writableRows.getByName "power_mng.soc_strategy" = some obj ∧
      (∃ out, Client.read .debug ⟨5, 1⟩ obj false
          [⟨⟨.ok true, .ok (), .ok (), .ok (), .ok (), 0⟩, [⟨0, .ok (responseTo 7).bytes⟩]⟩] = .ok (some out) ∧
        out.result = .ok (.u32 4)) ∧
      (∃ out, AsyncClient.read .debug ⟨5, 1⟩ obj false [⟨.ok (), .ok (), [⟨0, .ok (responseTo 7).bytes⟩]⟩] =
          .ok (some out) ∧ out.result = .ok (.u32 4)) ∧
      (∃ request out, readRequest .debug obj = .ok (.ok request) ∧
        Proxy.exchange ⟨5, 1⟩ request false ⟨.ok (), .ok (), 0, [⟨0, .ok (responseTo 7).bytes⟩]⟩ = .ok (some out) ∧
        out.result = .ok (responseTo 7).bytes) ∧
      ¬ ∃ frame body, FirstFrame (responseTo 7).bytes frame body ∧ bodyId body = obj.objectId := by
  refine ⟨_, rfl,
    ⟨⟨true, [[0x2b, 0x01, 0x04, 0xf1, 0x68, 0xb7, 0x48, 0x57, 0xd3]], .ok (.u32 4)⟩, by decide +kernel, rfl⟩,
    ⟨⟨true, [[0x2b, 0x01, 0x04, 0xf1, 0x68, 0xb7, 0x48, 0x57, 0xd3]], .ok (.u32 4)⟩, by decide +kernel, rfl⟩,
    ⟨[0x2b, 0x01, 0x04, 0xf1, 0x68, 0xb7, 0x48, 0x57, 0xd3],
      ⟨true, [[0x2b, 0x01, 0x04, 0xf1, 0x68, 0xb7, 0x48, 0x57, 0xd3]], .ok (responseTo 7).bytes⟩, by decide +kernel,
      by decide +kernel, rfl⟩, ?_⟩
  rintro ⟨frame, body, h, hid⟩
  obtain ⟨-, rfl⟩ := h.unique (firstFrame_bytes (responseTo 7))
  rw [bodyId_body] at hid
  exact absurd hid (by decide)

end RctPower
