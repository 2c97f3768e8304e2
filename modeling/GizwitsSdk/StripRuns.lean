import GizwitsSdk.McuFrames
import GizwitsSdk.Strip

/-!
# Runs of the power strip

Every step that moves the relay moves bit 0 of the status with it. A timer, in
contrast, can be armed while `Time_OnOff` is clear: the frames that set a minute
arm it without a look at the bit.
-/

namespace GizwitsSdk

open Lib

/-! ## The on/off byte -/

def onoffByte (b0 b1 b2 : Bool) : UInt8 :=
  (if b0 then 0x01 else 0) ||| (if b1 then 0x02 else 0) ||| if b2 then 0x04 else 0

theorem onoffByte_bits : ∀ b0 b1 b2 : Bool, isSet (onoffByte b0 b1 b2) 0x01 = b0 ∧
    isSet (onoffByte b0 b1 b2) 0x02 = b1 ∧ isSet (onoffByte b0 b1 b2) 0x04 = b2 := by decide

theorem onoffByte_set : ∀ b0 b1 b2 : Bool, setBit (onoffByte b0 b1 b2) 0 = onoffByte true b1 b2 ∧
    setBit (onoffByte b0 b1 b2) 1 = onoffByte b0 true b2 ∧
    setBit (onoffByte b0 b1 b2) 2 = onoffByte b0 b1 true := by decide

theorem onoffByte_clr : ∀ b0 b1 b2 : Bool, clrBit (onoffByte b0 b1 b2) 0 = onoffByte false b1 b2 ∧
    clrBit (onoffByte b0 b1 b2) 1 = onoffByte b0 false b2 ∧
    clrBit (onoffByte b0 b1 b2) 2 = onoffByte b0 b1 false := by decide

section
variable (b0 b1 b2 on : Bool)

theorem onoffByte_put0 : (if on then setBit (onoffByte b0 b1 b2) 0 else clrBit (onoffByte b0 b1 b2) 0) =
    onoffByte on b1 b2 := by
  cases on
  · exact (onoffByte_clr b0 b1 b2).1
  · exact (onoffByte_set b0 b1 b2).1

theorem onoffByte_put1 : (if on then setBit (onoffByte b0 b1 b2) 1 else clrBit (onoffByte b0 b1 b2) 1) =
    onoffByte b0 on b2 := by
  cases on
  · exact (onoffByte_clr b0 b1 b2).2.1
  · exact (onoffByte_set b0 b1 b2).2.1

theorem onoffByte_put2 : (if on then setBit (onoffByte b0 b1 b2) 2 else clrBit (onoffByte b0 b1 b2) 2) =
    onoffByte b0 b1 on := by
  cases on
  · exact (onoffByte_clr b0 b1 b2).2.2
  · exact (onoffByte_set b0 b1 b2).2.2

theorem frameOnoff_byte (attrFlags : UInt8) (ctrl : Nat → UInt8) :
    frameOnoff attrFlags ctrl (onoffByte b0 b1 b2) =
      onoffByte (if isSet attrFlags 0x01 then isSet (ctrl 0) 0x01 else b0)
        (if isSet attrFlags 0x02 then isSet (ctrl 0) 0x02 else b1)
        (if isSet attrFlags 0x04 then isSet (ctrl 0) 0x04 else b2) := by
  have h0 := (apply_ite (fun b => onoffByte b b1 b2) (isSet attrFlags 0x01) (isSet (ctrl 0) 0x01) b0).symm
  have h1 (x : Bool) := (apply_ite (fun b => onoffByte x b b2) (isSet attrFlags 0x02) (isSet (ctrl 0) 0x02) b1).symm
  have h2 (x y : Bool) := (apply_ite (onoffByte x y) (isSet attrFlags 0x04) (isSet (ctrl 0) 0x04) b2).symm
  simp only [frameOnoff, onoffByte_put0, h0, onoffByte_put1, h1, onoffByte_put2, h2]

end

/-! ## What was set last -/

def StripEv.sets (m : UInt8) (i : Nat) (v : UInt8) : StripEv → UInt8
  | frame attrFlags ctrl _ => if isSet attrFlags m then ctrl i else v
  | timerOn _ => v
  | timerOff _ => v
  | button _ _ => v

/-- Byte `i` of the last frame whose flag `m` was set, 0 if there is none. -/
def lastSet (m : UInt8) (i : Nat) (es : List StripEv) : UInt8 := es.foldl (StripEv.sets m i) 0

theorem lastSet_snoc (m : UInt8) (i : Nat) (es : List StripEv) (e : StripEv) :
    lastSet m i (es ++ [e]) = e.sets m i (lastSet m i es) := by
  unfold lastSet
  rw [List.foldl_append]
  rfl

structure Recorded (es : List StripEv) (s : StripSt) : Prop where
  onoff : s.status.onoff =
    onoffByte s.socketGpio (isSet (lastSet 0x02 0 es) 0x02) (isSet (lastSet 0x04 0 es) 0x04)
  weekRepeat : s.status.weekRepeat = lastSet 0x08 1 es
  timeOnMinute : s.status.timeOnMinute = decodeInt16 (lastSet 0x10 2 es, lastSet 0x10 3 es)
  timeOffMinute : s.status.timeOffMinute = decodeInt16 (lastSet 0x20 4 es, lastSet 0x20 5 es)
  countdownMinute : s.status.countdownMinute = decodeInt16 (lastSet 0x40 6 es, lastSet 0x40 7 es)
  powerConsumption : s.status.powerConsumption = 0

section
variable {s s' : StripSt} {es : List StripEv} {e : StripEv}

theorem recorded_init : Recorded [] stripInit := ⟨rfl, rfl, rfl, rfl, rfl, rfl⟩

theorem Recorded.congr (h : Recorded es s) (hs : s'.status = s.status) (hg : s'.socketGpio = s.socketGpio) :
    Recorded es s' := by
  constructor
  · rw [hs, hg]; exact h.onoff
  · rw [hs]; exact h.weekRepeat
  · rw [hs]; exact h.timeOnMinute
  · rw [hs]; exact h.timeOffMinute
  · rw [hs]; exact h.countdownMinute
  · rw [hs]; exact h.powerConsumption

theorem Recorded.switch (h : Recorded es s) (on : Bool) : Recorded es (switchSocket on s) := by
  refine ⟨?_, h.weekRepeat, h.timeOnMinute, h.timeOffMinute, h.countdownMinute, h.powerConsumption⟩
  show (if on then setBit s.status.onoff 0 else clrBit s.status.onoff 0) = _
  rw [h.onoff, onoffByte_put0]
  rfl

theorem Recorded.onTime (h : Recorded es s) (on : Bool) (ticks : UInt32) {setTimer : StripSt → StripSt}
    (hs : ∀ s, (setTimer s).status = s.status) (hg : ∀ s, (setTimer s).socketGpio = s.socketGpio) :
    Recorded es (switchOnTime on ticks setTimer s) := by
  have key : ∀ (s : StripSt) (c : Prop) [Decidable c], Recorded es s →
      Recorded es (if c then switchSocket on s else s) := by
    intro s c _ h
    split
    · exact h.switch on
    · exact h
  have h1 := key s (s.status.weekRepeat = 0) h
  unfold switchOnTime
  generalize (if s.status.weekRepeat = 0 then switchSocket on s else s) = s1 at h1 ⊢
  apply key
  split
  · exact h1.congr (hs s1) (hg s1)
  · exact h1

theorem Recorded.snoc (h : Recorded es s) (he : ∀ m i v, e.sets m i v = v) : Recorded (es ++ [e]) s := by
  have hl : ∀ m i, lastSet m i (es ++ [e]) = lastSet m i es := by
    intro m i
    rw [lastSet_snoc, he]
  constructor
  · rw [hl, hl]; exact h.onoff
  · rw [hl]; exact h.weekRepeat
  · rw [hl, hl]; exact h.timeOnMinute
  · rw [hl, hl]; exact h.timeOffMinute
  · rw [hl, hl]; exact h.countdownMinute
  · exact h.powerConsumption

theorem Recorded.frame (h : Recorded es s) (attrFlags : UInt8) (ctrl : Nat → UInt8) (ticks : UInt32) :
    Recorded (es ++ [.frame attrFlags ctrl ticks]) (stripDataParse attrFlags ctrl ticks s) := by
  constructor
  · rw [parse_onoff, parse_socketGpio, h.onoff, frameOnoff_byte, lastSet_snoc, lastSet_snoc]
    simp only [StripEv.sets, apply_ite (fun x => isSet x 0x02), apply_ite (fun x => isSet x 0x04)]
  · rw [parse_weekRepeat, h.weekRepeat, lastSet_snoc]
    rfl
  · rw [parse_timeOnMinute, h.timeOnMinute, lastSet_snoc, lastSet_snoc]
    simp only [StripEv.sets]
    split <;> rfl
  · rw [parse_timeOffMinute, h.timeOffMinute, lastSet_snoc, lastSet_snoc]
    simp only [StripEv.sets]
    split <;> rfl
  · rw [parse_countdownMinute, h.countdownMinute, lastSet_snoc, lastSet_snoc]
    simp only [StripEv.sets]
    split <;> rfl
  · rw [parse_powerConsumption]
    exact h.powerConsumption

theorem Recorded.step (h : Recorded es s) (e : StripEv) : Recorded (es ++ [e]) (stripStep s e) := by
  cases e with
  | frame attrFlags ctrl ticks => exact h.frame attrFlags ctrl ticks
  | timerOn ticks =>
    refine Recorded.snoc ?_ fun _ _ _ => rfl
    simp only [stripStep]
    split
    · refine Recorded.onTime ?_ true ticks (fun _ => rfl) fun _ => rfl
      exact h.congr rfl rfl
    · exact h
  | timerOff ticks =>
    refine Recorded.snoc ?_ fun _ _ _ => rfl
    simp only [stripStep]
    split
    · refine Recorded.onTime ?_ false ticks (fun _ => rfl) fun _ => rfl
      exact h.congr rfl rfl
    · exact h
  | button gpio10 gpio10' =>
    refine Recorded.snoc ?_ fun _ _ _ => rfl
    simp only [stripStep, checkSocket]
    split
    · exact (h.switch _).congr rfl rfl
    · exact h

theorem recorded_run (es : List StripEv) : Recorded es (run stripStep stripInit es) := by
  induction es using List.reverseRecOn with
  | nil => exact recorded_init
  | append_singleton es e ih =>
    rw [run_snoc]
    exact ih.step e

end

/-! ## The relay and the report -/

/-- What a frame with `attrFlags` leaves alone. -/
structure Selective (attrFlags : UInt8) (st st' : SocketStatus) : Prop where
  socket : isSet attrFlags 0x01 = false → isSet st'.onoff 0x01 = isSet st.onoff 0x01
  timeOnOff : isSet attrFlags 0x02 = false → isSet st'.onoff 0x02 = isSet st.onoff 0x02
  countDownOnOff : isSet attrFlags 0x04 = false → isSet st'.onoff 0x04 = isSet st.onoff 0x04
  otherBits : st'.onoff &&& 0xf8 = st.onoff &&& 0xf8
  weekRepeat : isSet attrFlags 0x08 = false → st'.weekRepeat = st.weekRepeat
  timeOnMinute : isSet attrFlags 0x10 = false → st'.timeOnMinute = st.timeOnMinute
  timeOffMinute : isSet attrFlags 0x20 = false → st'.timeOffMinute = st.timeOffMinute
  countdownMinute : isSet attrFlags 0x40 = false → st'.countdownMinute = st.countdownMinute
  powerConsumption : st'.powerConsumption = st.powerConsumption

/-- The relay is switched on time: every day without a week, else on the days of the week. -/
def DueToday (ticks : UInt32) (s : StripSt) : Prop :=
  s.status.weekRepeat = 0 ∨ s.repeatFlag = true ∧ s.status.weekRepeat >>> (timingWeek ticks - 1).toUInt8 &&& 1 ≠ 0

instance (ticks : UInt32) (s : StripSt) : Decidable (DueToday ticks s) := inferInstanceAs (Decidable (_ ∨ _))

/-- Where an event puts a relay that stands at `on`. -/
def StripEv.moves (s : StripSt) (on : Bool) : StripEv → Bool
  | frame attrFlags ctrl _ => if isSet attrFlags 0x01 then isSet (ctrl 0) 0x01 else on
  | timerOn ticks => if s.timerOn.isSome ∧ DueToday ticks s then true else on
  | timerOff ticks => if s.timerOff.isSome ∧ DueToday ticks s then false else on
  | button gpio10 gpio10' => if gpio10 = 0 ∧ gpio10' = 0 then !on else on

/-- Where frames, timers and the button have put the relay, which is off at first. -/
def relayAfter (es : List StripEv) : Bool :=
  (es.foldl (fun (p : StripSt × Bool) e => (stripStep p.1 e, e.moves p.1 p.2)) (stripInit, false)).2

/-- The status bytes of a report after `es`, with the relay at `on`. -/
def reportBytes (on : Bool) (es : List StripEv) : List UInt8 :=
  [onoffByte on (isSet (lastSet 0x02 0 es) 0x02) (isSet (lastSet 0x04 0 es) 0x04), lastSet 0x08 1 es,
    lastSet 0x10 2 es, lastSet 0x10 3 es, lastSet 0x20 4 es, lastSet 0x20 5 es, lastSet 0x40 6 es,
    lastSet 0x40 7 es, 0, 0]

theorem switchOnTime_gpio (on : Bool) (ticks : UInt32) (setTimer : StripSt → StripSt) (s : StripSt)
    (hs : ∀ s, (setTimer s).status = s.status) (hr : ∀ s, (setTimer s).repeatFlag = s.repeatFlag)
    (hg : ∀ s, (setTimer s).socketGpio = s.socketGpio) :
    (switchOnTime on ticks setTimer s).socketGpio = if DueToday ticks s then on else s.socketGpio := by
  have hon (c : Prop) [Decidable c] (s : StripSt) : (if c then switchSocket on s else s).socketGpio =
      if c then on else s.socketGpio := by
    split <;> rfl
  unfold switchOnTime DueToday
  by_cases hw : s.status.weekRepeat = 0
  · have hwk : (switchSocket on s).status.weekRepeat = 0 := hw
    simp only [hw, hwk, if_true, ne_eq, not_true_eq_false, false_and, if_false, true_or, hon]
    exact ite_self on
  · simp only [hw, if_false, false_or, ne_eq, not_false_eq_true, true_and]
    generalize hs' : (if s.repeatFlag = true then setTimer s else s) = s'
    have hsame : s'.status = s.status ∧ s'.repeatFlag = s.repeatFlag ∧ s'.socketGpio = s.socketGpio := by
      rw [← hs']
      split
      · exact ⟨hs s, hr s, hg s⟩
      · exact ⟨rfl, rfl, rfl⟩
    obtain ⟨hst, hrep, hgpio⟩ := hsame
    rw [hon, hst, hrep, hgpio]

theorem step_relay (s : StripSt) (e : StripEv) : (stripStep s e).socketGpio = e.moves s s.socketGpio := by
  cases e with
  | frame attrFlags ctrl ticks => exact parse_socketGpio attrFlags ctrl ticks s
  | timerOn ticks =>
    simp only [stripStep, StripEv.moves]
    split
    · case isTrue ha =>
      unfold timerOnTask
      rw [switchOnTime_gpio true ticks]
      · exact if_congr (and_iff_right ha).symm rfl rfl
      · exact fun _ => rfl
      · exact fun _ => rfl
      · exact fun _ => rfl
    · case isFalse ha => exact (if_neg fun h => ha h.1).symm
  | timerOff ticks =>
    simp only [stripStep, StripEv.moves]
    split
    · case isTrue ha =>
      unfold timerOffTask
      rw [switchOnTime_gpio false ticks]
      · exact if_congr (and_iff_right ha).symm rfl rfl
      · exact fun _ => rfl
      · exact fun _ => rfl
      · exact fun _ => rfl
    · case isFalse ha => exact (if_neg fun h => ha h.1).symm
  | button gpio10 gpio10' =>
    simp only [stripStep, checkSocket, StripEv.moves]
    split <;> rfl

/-- The relay stands where it has been put. -/
theorem relayAfter_eq (es : List StripEv) : (run stripStep stripInit es).socketGpio = relayAfter es := by
  have h : es.foldl (fun (p : StripSt × Bool) e => (stripStep p.1 e, e.moves p.1 p.2)) (stripInit, false) =
      (run stripStep stripInit es, (run stripStep stripInit es).socketGpio) := by
    induction es using List.reverseRecOn with
    | nil => rfl
    | append_singleton es e ih =>
      rw [List.foldl_append, ih, run_snoc, step_relay]
      rfl
  unfold relayAfter
  rw [h]

theorem onoffByte_high : ∀ b0 b1 b2 : Bool, onoffByte b0 b1 b2 &&& 0xf8 = 0 := by decide

theorem Recorded.selective {s : StripSt} {es : List StripEv} (h : Recorded es s) (attrFlags : UInt8)
    (ctrl : Nat → UInt8) (ticks : UInt32) :
    Selective attrFlags s.status (stripDataParse attrFlags ctrl ticks s).status := by
  have hb := onoffByte_bits s.socketGpio (isSet (lastSet 0x02 0 es) 0x02) (isSet (lastSet 0x04 0 es) 0x04)
  constructor
  · intro hf
    rw [parse_onoff, h.onoff, frameOnoff_byte, (onoffByte_bits _ _ _).1, hb.1, hf]
    rfl
  · intro hf
    rw [parse_onoff, h.onoff, frameOnoff_byte, (onoffByte_bits _ _ _).2.1, hb.2.1, hf]
    rfl
  · intro hf
    rw [parse_onoff, h.onoff, frameOnoff_byte, (onoffByte_bits _ _ _).2.2, hb.2.2, hf]
    rfl
  · rw [parse_onoff, h.onoff, frameOnoff_byte, onoffByte_high, onoffByte_high]
  · intro hf
    rw [parse_weekRepeat, hf]
    rfl
  · intro hf
    rw [parse_timeOnMinute, hf]
    rfl
  · intro hf
    rw [parse_timeOffMinute, hf]
    rfl
  · intro hf
    rw [parse_countdownMinute, hf]
    rfl
  · exact parse_powerConsumption attrFlags ctrl ticks s

theorem decodeInPlace_bytes (a b : UInt8) : shortBytes (decodeInPlace (decodeInt16 (a, b))) = [a, b] := by
  obtain ⟨h0, h1⟩ := decodeInt16_bytes a b
  unfold decodeInPlace
  rw [h0, h1]
  obtain ⟨h2, h3⟩ := decodeInt16_bytes b a
  unfold shortBytes
  rw [h2, h3]

theorem Recorded.report {s : StripSt} {es : List StripEv} (h : Recorded es s) (sn : UInt8) :
    (reportStatus REPORT_STATUS sn s.mcu).mM2wMcuStatus.statusW.bytes = reportBytes s.socketGpio es := by
  have hr : (reportStatus REPORT_STATUS sn s.mcu).mM2wMcuStatus.statusW.bytes =
      [s.status.onoff, s.status.weekRepeat] ++ shortBytes (decodeInPlace s.status.timeOnMinute) ++
        shortBytes (decodeInPlace s.status.timeOffMinute) ++
        shortBytes (decodeInPlace s.status.countdownMinute) ++ shortBytes s.status.powerConsumption := rfl
  rw [hr, h.onoff, h.weekRepeat, h.timeOnMinute, h.timeOffMinute, h.countdownMinute, h.powerConsumption,
    decodeInPlace_bytes, decodeInPlace_bytes, decodeInPlace_bytes]
  rfl

/-- **The relay and its report.** After any run the relay and bit 0 of the status
stand where frames, timers and the button have put them, a further frame changes
only what its flags say, and a report brings that bit and the bytes that were set last. -/
theorem strip_relay_and_report (es : List StripEv) :
    (run stripStep stripInit es).socketGpio = relayAfter es ∧
      isSet (run stripStep stripInit es).status.onoff 0x01 = relayAfter es ∧
      (∀ attrFlags ctrl ticks, Selective attrFlags (run stripStep stripInit es).status
        (run stripStep stripInit (es ++ [.frame attrFlags ctrl ticks])).status) ∧
      ∀ sn, (reportStatus REPORT_STATUS sn (run stripStep stripInit es).mcu).mM2wMcuStatus.statusW.bytes =
        reportBytes (relayAfter es) es := by
  have h := recorded_run es
  rw [← relayAfter_eq]
  refine ⟨rfl, ?_, fun attrFlags ctrl ticks => ?_, h.report⟩
  · rw [h.onoff, (onoffByte_bits _ _ _).1]
  · rw [run_snoc]
    exact h.selective attrFlags ctrl ticks

/-- The button moves bit 0, and no frame has set it. -/
theorem button_moves_report : ¬ ∀ (es : List StripEv) (sn : UInt8),
    (reportStatus REPORT_STATUS sn (run stripStep stripInit es).mcu).mM2wMcuStatus.statusW.bytes =
      reportBytes (isSet (lastSet 0x01 0 es) 0x01) es := by
  intro h
  exact absurd (h [.button 0 0] 0) (by decide +kernel)

/-! ## The schedule -/

def StripSt.Armed (s : StripSt) : Prop := s.timerOn.isSome ∨ s.timerOff.isSome

/-- No timer is armed while `Time_OnOff` is clear, and none switches the relay then. -/
structure ScheduleGated (s : StripSt) : Prop where
  armed : s.Armed → isSet s.status.onoff 0x02
  quiet : isSet s.status.onoff 0x02 = false → ∀ ticks,
    (stripStep s (.timerOn ticks)).socketGpio = s.socketGpio ∧
      (stripStep s (.timerOff ticks)).socketGpio = s.socketGpio

/-- A frame that sets a minute leaves `Time_OnOff` set. -/
def minuteWhileOn (s : StripSt) : StripEv → Prop
  | .frame attrFlags ctrl _ => isSet attrFlags 0x10 ∨ isSet attrFlags 0x20 →
    (if isSet attrFlags 0x02 then isSet (ctrl 0) 0x02 else isSet s.status.onoff 0x02) = true
  | .timerOn _ => True
  | .timerOff _ => True
  | .button _ _ => True

section
variable {s : StripSt} {es : List StripEv}

theorem parse_timerOn (attrFlags : UInt8) (ctrl : Nat → UInt8) (ticks : UInt32) (s : StripSt) :
    (stripDataParse attrFlags ctrl ticks s).timerOn.isSome = (isSet attrFlags 0x10 ||
      if isSet attrFlags 0x02 then isSet (ctrl 0) 0x02 else s.timerOn.isSome) := by
  simp only [stripDataParse, apply_ite StripSt.timerOn, setCountdownMinute, setTimeOffMinute,
    setTimeOnMinute, setWeekRepeat, setCountDown, setTimeOnOff, switchSocket, StripSt.setStatus, ite_self]
  cases isSet attrFlags 0x10 <;> cases isSet attrFlags 0x02 <;> cases isSet (ctrl 0) 0x02 <;> rfl

theorem parse_timerOff (attrFlags : UInt8) (ctrl : Nat → UInt8) (ticks : UInt32) (s : StripSt) :
    (stripDataParse attrFlags ctrl ticks s).timerOff.isSome = (isSet attrFlags 0x20 ||
      if isSet attrFlags 0x02 then isSet (ctrl 0) 0x02 else s.timerOff.isSome) := by
  simp only [stripDataParse, apply_ite StripSt.timerOff, setCountdownMinute, setTimeOffMinute,
    setTimeOnMinute, setWeekRepeat, setCountDown, setTimeOnOff, switchSocket, StripSt.setStatus, ite_self]
  cases isSet attrFlags 0x20 <;> cases isSet attrFlags 0x02 <;> cases isSet (ctrl 0) 0x02 <;> rfl

theorem parse_timeOnOff (h : Recorded es s) (attrFlags : UInt8) (ctrl : Nat → UInt8) (ticks : UInt32) :
    isSet (stripDataParse attrFlags ctrl ticks s).status.onoff 0x02 =
      if isSet attrFlags 0x02 then isSet (ctrl 0) 0x02 else isSet s.status.onoff 0x02 := by
  rw [parse_onoff, h.onoff, frameOnoff_byte, (onoffByte_bits _ _ _).2.1, (onoffByte_bits _ _ _).2.1]

theorem scheduleGated_iff : ScheduleGated s ↔ (s.Armed → isSet s.status.onoff 0x02) := by
  constructor
  · exact fun h => h.armed
  · intro h
    refine ⟨h, fun hoff ticks => ?_⟩
    have hn : ¬ s.Armed := fun ha => by rw [hoff] at h; exact absurd (h ha) (by decide)
    unfold StripSt.Armed at hn
    rw [not_or] at hn
    simp only [stripStep, if_neg hn.1, if_neg hn.2, and_self]

/-- What is armed after a frame is armed with `Time_OnOff` set exactly under the condition. -/
theorem gated_frame_iff (h : Recorded es s) (hg : ScheduleGated s) (attrFlags : UInt8) (ctrl : Nat → UInt8)
    (ticks : UInt32) : ScheduleGated (stripDataParse attrFlags ctrl ticks s) ↔
      minuteWhileOn s (.frame attrFlags ctrl ticks) := by
  have hs := hg.armed
  rw [scheduleGated_iff]
  unfold StripSt.Armed at hs ⊢
  rw [parse_timerOn, parse_timerOff, parse_timeOnOff h]
  simp only [minuteWhileOn]
  cases isSet attrFlags 0x02
  · simp only [Bool.false_eq_true, if_false, Bool.or_eq_true]
    constructor
    · rintro h (ha | ha)
      · exact h (.inl (.inl ha))
      · exact h (.inr (.inl ha))
    · rintro h ((ha | ha) | (ha | ha))
      · exact h (.inl ha)
      · exact hs (.inl ha)
      · exact h (.inr ha)
      · exact hs (.inr ha)
  · simp only [if_true, Bool.or_eq_true]
    constructor
    · rintro h (ha | ha)
      · exact h (.inl (.inl ha))
      · exact h (.inr (.inl ha))
    · rintro h ((ha | ha) | (ha | ha))
      · exact h (.inl ha)
      · exact ha
      · exact h (.inr ha)
      · exact ha

theorem Recorded.timeOnOff (h : Recorded es s) :
    isSet s.status.onoff 0x02 = isSet (lastSet 0x02 0 es) 0x02 := by
  rw [h.onoff, (onoffByte_bits _ _ _).2.1]

/-- A timer that fires, or the button, leaves `Time_OnOff` as it is. -/
theorem gated_other (h : Recorded es s) (hg : ScheduleGated s) (e : StripEv) (he : ∀ m i v, e.sets m i v = v)
    (hs : (stripStep s e).Armed → s.Armed) : ScheduleGated (stripStep s e) := by
  rw [scheduleGated_iff]
  intro ha
  rw [(h.step e).timeOnOff, lastSet_snoc, he, ← h.timeOnOff]
  exact hg.armed (hs ha)

theorem gated_step_iff (h : Recorded es s) (hg : ScheduleGated s) (e : StripEv) :
    ScheduleGated (stripStep s e) ↔ minuteWhileOn s e := by
  cases e with
  | frame attrFlags ctrl ticks => exact gated_frame_iff h hg attrFlags ctrl ticks
  | timerOn ticks =>
    refine iff_of_true (gated_other h hg _ (fun _ _ _ => rfl) ?_) trivial
    simp only [stripStep]
    split
    · exact fun _ => .inl ‹_›
    · exact id
  | timerOff ticks =>
    refine iff_of_true (gated_other h hg _ (fun _ _ _ => rfl) ?_) trivial
    simp only [stripStep]
    split
    · exact fun _ => .inr ‹_›
    · exact id
  | button gpio10 gpio10' =>
    refine iff_of_true (gated_other h hg _ (fun _ _ _ => rfl) ?_) trivial
    simp only [stripStep, checkSocket]
    split
    · exact id
    · exact id

end

/-- **When the schedule is gated.** In every state of a run the timers are armed
with `Time_OnOff` set exactly when no frame of the run sets a minute and leaves
`Time_OnOff` clear. -/
theorem schedule_gated_iff (es : List StripEv) :
    (∀ pre, pre <+: es → ScheduleGated (run stripStep stripInit pre)) ↔
      Meets stripStep minuteWhileOn stripInit es := by
  refine @meets_iff _ _ stripStep stripInit es minuteWhileOn
    (fun s => (∃ es, Recorded es s) ∧ ScheduleGated s) ScheduleGated ?_ ?_ ?_ ?_
  · refine ⟨⟨[], recorded_init⟩, scheduleGated_iff.mpr ?_⟩
    rintro (h | h) <;> cases h
  · exact fun s h => h.2
  · rintro s e ⟨⟨es, hr⟩, hg⟩ hok
    exact ⟨⟨_, hr.step e⟩, (gated_step_iff hr hg e).mpr hok⟩
  · rintro s e ⟨⟨es, hr⟩, hg⟩ h
    exact (gated_step_iff hr hg e).mp h

/-- A frame that sets `Time_On_Minute` and nothing else, from a strip that has
just started: the timer switches the relay on. -/
theorem minute_arms_while_off : ¬ ∀ es : List StripEv,
    ∀ pre, pre <+: es → ScheduleGated (run stripStep stripInit pre) := by
  intro h
  have hg := h [.frame 0x10 (fun _ => 0) 0] _ (List.prefix_refl _)
  have hq := (hg.quiet (by decide) 0).1
  exact absurd hq (by decide)

end GizwitsSdk
