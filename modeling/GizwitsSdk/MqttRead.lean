import GizwitsSdk.Lib.Chunks
import GizwitsSdk.MqttLib

/-!
# Inbound framing: `MQTT_readPacket` and `MQTT_handlePacket`

One call receives once. A chunk shorter than the packet it begins with is
dropped, and what a chunk holds after its first packet is never looked at. So
the packets taken up are the packets sent only when TCP cuts the stream at the
packet boundaries.
-/

namespace GizwitsSdk

open Lib

def mqttSocketBufferLen : Nat := 2048

/-- What `select` and `recv` give one call; no bytes for a closed or failed connection. -/
inductive SocketRead
  | selectError
  | notReady
  | data (bytes : List UInt8)

/-- 1 + the width and the value of the length field. -/
def packetLength (packetBuffer : List UInt8) (messageLen : UInt16) : Nat :=
  mqttNumRemLenBytes packetBuffer + messageLen.toNat + 1

/-- The code and the buffer; `none` when the length field runs out of the buffer. -/
def mqttReadPacket (bufferLen : Nat) : SocketRead → Option (Int × List UInt8)
  | .selectError => some (-2, List.replicate bufferLen 0)
  | .notReady => some (0, List.replicate bufferLen 0)
  | .data bytes =>
    let packetBuffer := bytes ++ List.replicate (bufferLen - bytes.length) 0
    if bytes = [] then some (-1, packetBuffer)
    else
      match mqttParseRemLen packetBuffer with
      | none => none
      | some messageLen =>
        if bytes.length < packetLength packetBuffer messageLen then some (-3, packetBuffer)
        else some (bytes.length, packetBuffer)

/-- What `MQTT_handlePacket` goes on with: the type and the packet at the start of its buffer. -/
structure Dispatch where
  packettype : UInt8
  packet : List UInt8

/-- A call of `MQTT_handlePacket` up to its `switch`. -/
def mqttHandlePacket (socketid : Int) (r : SocketRead) : Option Dispatch :=
  if socketid = -1 then none
  else
    match mqttReadPacket mqttSocketBufferLen r with
    | none => none
    | some (packetLen, buffer) =>
      if packetLen > 0 then
        some ⟨mqttParseMessageType buffer,
          buffer.take (packetLength buffer ((mqttParseRemLen buffer).getD 0))⟩
      else none

/-- The packets that the calls take up whose `recv` returns the chunks `cs`. -/
def takenUp (socketid : Int) (cs : List (List UInt8)) : List (List UInt8) :=
  cs.filterMap fun c => (mqttHandlePacket socketid (.data c)).map Dispatch.packet

/-- A fixed header with the length of the rest, and the rest. -/
def WellFormed (p : List UInt8) : Prop := ∃ header body, p = header :: (varint body.length ++ body)

section
variable {socketid : Int} {c p : List UInt8}

/-- A chunk is taken up as a beginning of it. -/
theorem handle_prefix {d : Dispatch} (h : mqttHandlePacket socketid (.data c) = some d) :
    d.packet <+: c := by
  unfold mqttHandlePacket at h
  split at h
  · cases h
  simp only [mqttReadPacket] at h
  by_cases hc : c = []
  · rw [if_pos hc] at h
    simp at h
  rw [if_neg hc] at h
  cases hp : mqttParseRemLen (c ++ List.replicate (mqttSocketBufferLen - c.length) 0) with
  | none => rw [hp] at h; cases h
  | some messageLen =>
    rw [hp] at h
    simp only at h
    by_cases hl : c.length < packetLength (c ++ List.replicate (mqttSocketBufferLen - c.length) 0)
        messageLen
    · rw [if_pos hl] at h
      simp at h
    · rw [if_neg hl] at h
      simp only at h
      split at h
      · obtain rfl := Option.some.inj h
        simp only [hp, Option.getD_some]
        rw [List.take_append_of_le_length (Nat.le_of_not_lt hl)]
        exact List.take_prefix _ _
      · cases h

theorem handle_wellFormed (hs : socketid ≠ -1) (hp : WellFormed p)
    (hl : p.length ≤ mqttSocketBufferLen) :
    (mqttHandlePacket socketid (.data p)).map Dispatch.packet = some p := by
  obtain ⟨header, body, rfl⟩ := hp
  simp only [List.length_cons, List.length_append, mqttSocketBufferLen] at hl
  have hb : body.length < 16384 := by omega
  have hparse : ∀ rest, mqttParseRemLen (header :: (varint body.length ++ body) ++ rest) =
      some (.ofNat body.length) := by
    intro rest
    unfold mqttParseRemLen
    rw [List.cons_append, List.drop_one, List.tail_cons, List.append_assoc, remLenLoop_varint hb]
  have hlen : ∀ rest, packetLength (header :: (varint body.length ++ body) ++ rest)
      (.ofNat body.length) = (header :: (varint body.length ++ body)).length := by
    intro rest
    unfold packetLength
    rw [List.cons_append, List.append_assoc, numRemLen_varint hb, UInt16.toNat_ofNat']
    simp only [List.length_cons, List.length_append]
    omega
  unfold mqttHandlePacket mqttReadPacket
  simp only [if_neg hs, reduceCtorEq, if_false, hparse, hlen, Nat.lt_irrefl, Option.getD_some]
  rw [if_pos (by simp only [List.length_cons]; omega), Option.map_some, List.take_left]

/-- **Inbound framing.** Whatever chunks a stream of packets arrives in, the
packets taken up are the ones sent exactly when the chunks are the packets. -/
theorem inbound_framing_iff (hs : socketid ≠ -1) {ps cs : List (List UInt8)}
    (hp : ∀ p ∈ ps, WellFormed p ∧ p.length ≤ mqttSocketBufferLen)
    (hc : ∀ c ∈ cs, c ≠ [] ∧ c.length ≤ mqttSocketBufferLen) (he : cs.flatten = ps.flatten) :
    takenUp socketid cs = ps ↔ cs = ps := by
  have hpre : ∀ c ∈ cs, ∀ p, (mqttHandlePacket socketid (.data c)).map Dispatch.packet = some p →
      p <+: c := by
    intro c _ p h
    obtain ⟨d, hd, rfl⟩ := Option.map_eq_some_iff.mp h
    exact handle_prefix hd
  constructor
  · intro h
    have hw := filterMap_whole hpre (fun c hm => (hc c hm).1) (by
      rw [he]; exact congrArg (fun l => (List.flatten l).length) h)
    exact hw.symm.trans h
  · intro h
    subst h
    apply filterMap_self
    intro c hm
    exact handle_wellFormed hs (hp c hm).1 (hp c hm).2

end

/-- Two packets, each in a chunk of its own. -/
theorem inbound_framing_apart :
    takenUp 3 [[0xd0, 0], [0x20, 2, 0, 0]] = [[0xd0, 0], [0x20, 2, 0, 0]] :=
  (@inbound_framing_iff 3 (by decide) [[0xd0, 0], [0x20, 2, 0, 0]] [[0xd0, 0], [0x20, 2, 0, 0]]
    (by
      intro p hp
      simp only [List.mem_cons, List.not_mem_nil, or_false] at hp
      rcases hp with rfl | rfl
      · exact ⟨⟨0xd0, [], by simp [varint_one]⟩, by decide⟩
      · exact ⟨⟨0x20, [0, 0], by simp [varint_one]⟩, by decide⟩)
    (by decide) rfl).mpr rfl

/-- Two ping responses in one chunk: the second one is lost. -/
theorem inbound_framing_joined :
    ¬ ∀ ps cs : List (List UInt8), (∀ p ∈ ps, WellFormed p ∧ p.length ≤ mqttSocketBufferLen) →
      (∀ c ∈ cs, c ≠ [] ∧ c.length ≤ mqttSocketBufferLen) → cs.flatten = ps.flatten →
        takenUp 3 cs = ps := by
  intro h
  have hw : WellFormed [0xd0, 0] := ⟨0xd0, [], by simp [varint_one]⟩
  have := h [[0xd0, 0], [0xd0, 0]] [[0xd0, 0, 0xd0, 0]]
    (by
      intro p hp
      simp only [List.mem_cons, List.not_mem_nil, or_false, or_self] at hp
      subst hp
      exact ⟨hw, by decide⟩)
    (by decide) rfl
  have := congrArg List.length this
  revert this
  decide

end GizwitsSdk
