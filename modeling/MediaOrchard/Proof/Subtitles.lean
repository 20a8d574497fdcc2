/-
  The subtitles that the real pipeline writes, read back.

  * `toList_srtTimestamp`: a timestamp is the text of its milliseconds;
  * `timestamps_exact`: hours, minutes, seconds and milliseconds are read back;
  * `segmentsToSrt_eq`: the subtitles of segments are written cues (`segmentCues`);
  * `floatMillis`: the milliseconds of a time in binary64; they are the exact ones for
    whole milliseconds (`exactMillis_of_whole`), not for all times;
  * `subtitles_faithful`: the subtitles are read back if and only if no text has an
    empty line and every time has its exact milliseconds.
-/
import MediaOrchard.Worker.Pipelines
import MediaOrchard.Lib.Srt
import Mathlib.Algebra.Order.Floor.Ring
import Mathlib.Data.Rat.Floor
import Mathlib.Algebra.Ring.Parity
import Mathlib.Tactic.Linarith
import Mathlib.Tactic.Positivity

namespace MediaOrchard

/-! ## Timestamps -/

theorem toList_zeroPad (w : ℕ) (n : ℤ) : (zeroPad w n).toList = Srt.signed w n := by
  unfold zeroPad Srt.signed Srt.padded
  dsimp only
  have hlen : n.natAbs.repr.length = (Nat.toDigits 10 n.natAbs).length := by
    rw [← Nat.toList_repr, String.length_toList]
  have hminus : "-".length = 1 := by decide
  split_ifs with hn <;> simp [hlen, hminus, Text.digits]

theorem toList_srtTimestamp (ms : ℤ) : (srtTimestamp ms).toList = (Srt.Stamp.ofMillis ms).chars := by
  unfold srtTimestamp Srt.Stamp.chars
  dsimp only
  have hminutes : ((Srt.Stamp.ofMillis ms).minutes : ℤ) = ms % 3600000 / 60000 := by
    simp only [Srt.Stamp.ofMillis]
    omega
  have hseconds : ((Srt.Stamp.ofMillis ms).seconds : ℤ) = ms % 3600000 % 60000 / 1000 := by
    simp only [Srt.Stamp.ofMillis]
    omega
  have hmillis : ((Srt.Stamp.ofMillis ms).millis : ℤ) = ms % 3600000 % 60000 % 1000 := by
    simp only [Srt.Stamp.ofMillis]
    omega
  simp only [String.toList_append, toList_zeroPad, ← hminutes, ← hseconds, ← hmillis,
    Srt.signed_natCast]
  show _ = Srt.signed 2 (ms / 3600000) ++ _
  simp

theorem toList_formatSrtTimestamp (s : ℚ) :
    (formatSrtTimestamp s).toList = (Srt.Stamp.ofMillis (roundHalfEven (1000 * s))).chars := by
  rw [mul_comm, formatSrtTimestamp, toList_srtTimestamp]

/-- **Timestamps are exact and monotone.**  What is written is read back as hours,
    minutes, seconds and three digits of milliseconds, whose total is the rounded
    number of milliseconds; later times give later timestamps, and times that round
    to the same millisecond the same text. -/
theorem timestamps_exact :
    (∀ s : ℚ, 0 ≤ s → ∃ t : Srt.Stamp, Srt.readStamp (formatSrtTimestamp s).toList = some t ∧
      0 ≤ t.hours ∧ (t.minutes : ℕ) < 60 ∧ (t.seconds : ℕ) < 60 ∧ (t.millis : ℕ) < 1000 ∧
      t.total = roundHalfEven (1000 * s) ∧
      ∃ l ds, (formatSrtTimestamp s).toList = l ++ ',' :: ds ∧ ds.length = 3 ∧
        Text.readDigits ds = some (t.millis : ℕ)) ∧
    (∀ s s' : ℚ, 0 ≤ s → s ≤ s' → ∀ t t' : Srt.Stamp,
      Srt.readStamp (formatSrtTimestamp s).toList = some t →
      Srt.readStamp (formatSrtTimestamp s').toList = some t' → t.total ≤ t'.total) ∧
    (∀ s s' : ℚ, roundHalfEven (1000 * s) = roundHalfEven (1000 * s') →
      formatSrtTimestamp s = formatSrtTimestamp s') ∧
    ∀ q : ℚ, |q - roundHalfEven q| ≤ 1 / 2 ∧
      (|q - roundHalfEven q| = 1 / 2 → Even (roundHalfEven q)) := by
  have hread : ∀ s, Srt.readStamp (formatSrtTimestamp s).toList =
      some (Srt.Stamp.ofMillis (roundHalfEven (1000 * s))) := fun s => by
    rw [toList_formatSrtTimestamp, Srt.readStamp_chars]
  refine ⟨fun s hs => ?_, fun s s' _ hss t t' ht ht' => ?_, fun s s' h => ?_, Binary64.halfEven_near⟩
  · have hms : 0 ≤ roundHalfEven (1000 * s) := by
      have hzero : roundHalfEven 0 = 0 := by decide +kernel
      rw [← hzero]
      exact Binary64.halfEven_mono (by positivity)
    refine ⟨_, hread s, Int.ediv_nonneg hms (by decide), Fin.isLt _, Fin.isLt _, Fin.isLt _,
      Srt.Stamp.total_ofMillis _, ?_⟩
    rw [toList_formatSrtTimestamp]
    generalize Srt.Stamp.ofMillis (roundHalfEven (1000 * s)) = t
    refine ⟨Srt.signed 2 t.hours ++ ':' :: (Srt.padded 2 t.minutes ++ ':' :: Srt.padded 2 t.seconds),
      Srt.padded 3 t.millis, ?_, Srt.length_padded (by decide) t.millis.isLt,
      Srt.readDigits_padded 3 _⟩
    simp [Srt.Stamp.chars]
  · rw [hread] at ht ht'
    cases ht
    cases ht'
    rw [Srt.Stamp.total_ofMillis, Srt.Stamp.total_ofMillis]
    exact Binary64.halfEven_mono (by linarith)
  · refine String.toList_injective ?_
    rw [toList_formatSrtTimestamp, toList_formatSrtTimestamp, h]

theorem timestamps_exact_sample : ∃ t t' : Srt.Stamp,
    Srt.readStamp (formatSrtTimestamp (149999 / 2500)).toList = some t ∧ t.total = 60000 ∧
    Srt.readStamp (formatSrtTimestamp (150001 / 2500)).toList = some t' ∧ t.total ≤ t'.total ∧
    formatSrtTimestamp (149999 / 2500) = formatSrtTimestamp (150001 / 2500) := by
  obtain ⟨hexact, hmono, hsame, -⟩ := timestamps_exact
  obtain ⟨t, ht, -, -, -, -, htotal, -⟩ := hexact (149999 / 2500) (by norm_num)
  obtain ⟨t', ht', -⟩ := hexact (150001 / 2500) (by norm_num)
  exact ⟨t, t', ht, htotal.trans (by decide +kernel), ht',
    hmono _ _ (by norm_num) (by norm_num) t t' ht ht', hsame _ _ (by decide +kernel)⟩

/-! ## Segments as cues -/

section
variable (lib : Library)

/-- A time of a segment in milliseconds. -/
def segmentMillis (segment : Json) (key : String) : Except Exn ℤ := do
  let seconds ← ((← segment.get key).getD (.float 0)).toFloat lib
  intRound seconds.timesThousand

/-- A segment as a cue. -/
def segmentCue (index : ℕ) (segment : Json) : Except Exn Srt.Cue := do
  let start ← segmentMillis lib segment "start"
  let stop ← segmentMillis lib segment "end"
  let text ← textOf segment
  return ⟨index, start, stop, text.toList⟩

/-- The segments as cues, the first being the `index`-th. -/
def segmentCues (index : ℕ) : List Json → Except Exn (List Srt.Cue)
  | [] => .ok []
  | segment :: segments => do
    let c ← segmentCue lib index segment
    let cs ← segmentCues (index + 1) segments
    return c :: cs

variable {lib}

theorem segmentTime_eq (segment : Json) (key : String) :
    segmentTime lib segment key = srtTimestamp <$> segmentMillis lib segment key := by
  simp only [segmentTime, segmentMillis, formatSrtTimestamp?, map_bind]

/-- The chunk of a cue is its text. -/
theorem ofList_chars (c : Srt.Cue) : String.ofList c.chars = toString c.index ++ "\n" ++
    srtTimestamp c.start ++ " --> " ++ srtTimestamp c.stop ++ "\n" ++ String.ofList c.text ++ "\n" := by
  refine String.toList_injective ?_
  simp [Srt.Cue.chars, Srt.timesLine, Srt.arrow, toList_srtTimestamp, Text.digits]

theorem srtChunks_eq (index : ℕ) (segments : List Json) : srtChunks lib index segments =
    (List.map fun c => String.ofList c.chars) <$> segmentCues lib index segments := by
  induction segments generalizing index with
  | nil => rfl
  | cons segment segments ih =>
    simp only [srtChunks, segmentCues, segmentCue, segmentTime_eq, ih, map_bind, bind_map_left,
      bind_assoc, pure_bind, map_pure, List.map_cons, ofList_chars, String.ofList_toList]

/-- **The subtitles of segments are written cues.** -/
theorem segmentsToSrt_eq (segments : Json) : segmentsToSrt lib segments = do
    let cs ← segmentCues lib 1 (← segments.items)
    return String.ofList (Srt.write cs) := by
  have hwrite : ∀ cs : List Srt.Cue, "\n".intercalate (cs.map fun c => String.ofList c.chars) =
      String.ofList (Srt.write cs) := fun cs => by
    refine String.toList_injective ?_
    rw [String.toList_intercalate, Srt.write]
    simp [Function.comp_def]
  simp only [segmentsToSrt, srtChunks_eq, bind_map_left, hwrite]

end

/-! ## Times in binary64 -/

/-- The milliseconds of a time as the code computes them: the time and its product with 1000
    are rounded to binary64.  `none` is an overflow. -/
def floatMillis (t : ℚ) : Option ℤ := do
  let x ← Binary64.ofRat t
  let y ← Binary64.ofRat (x * 1000)
  return roundHalfEven y

/-- The time has in binary64 as many milliseconds as it has exactly. -/
def ExactMillis (t : ℚ) : Prop := floatMillis t = some (roundHalfEven (1000 * t))

instance (t : ℚ) : Decidable (ExactMillis t) := inferInstanceAs (Decidable (_ = _))

/-- A product of small numbers does not overflow. -/
theorem ofRat_of_le {q : ℚ} (h : |q| ≤ 2 ^ 64) : Binary64.ofRat q = some (Binary64.nearest q) := by
  have hsize : (2 : ℚ) ^ 64 < 2 ^ 1024 - 2 ^ 970 := by
    have h1 : (2 : ℚ) ^ 1024 = 2 ^ 54 * 2 ^ 970 := by rw [← pow_add]
    have h2 : (2 : ℚ) ^ 970 = 2 ^ 906 * 2 ^ 64 := by rw [← pow_add]
    have h3 : (1 : ℚ) ≤ 2 ^ 906 := one_le_pow₀ one_le_two
    rw [h1, h2]
    generalize (2 : ℚ) ^ 906 = big at h3 ⊢
    linarith
  have hnone : Binary64.ofRat q ≠ none := fun hnone =>
    absurd (Binary64.ofRat_eq_none.1 hnone) (not_le.2 (h.trans_lt hsize))
  unfold Binary64.ofRat at hnone ⊢
  split_ifs at hnone ⊢
  · rfl
  · exact absurd rfl hnone

/-- **Whole milliseconds are exact**, for 35,000 years. -/
theorem exactMillis_of_whole {m : ℤ} (hm : |m| ≤ 2 ^ 50) : ExactMillis (m / 1000) := by
  have hm' : |(m : ℚ)| ≤ 2 ^ 50 := by exact_mod_cast hm
  have htime : |(m / 1000 : ℚ)| = |(m : ℚ)| / 1000 := by rw [abs_div]; norm_num
  have herror := Binary64.nearest_error (m / 1000 : ℚ)
  have hstep := Binary64.nearest_error (Binary64.nearest (m / 1000 : ℚ) * 1000)
  have htiny : (1 : ℚ) / 2 ^ 1075 ≤ 1 / 2 ^ 100 :=
    one_div_le_one_div_of_le (by positivity) (pow_le_pow_right₀ one_le_two (by norm_num))
  have htime64 : |(m / 1000 : ℚ)| ≤ 2 ^ 64 := by
    rw [htime]
    linarith
  unfold ExactMillis floatMillis
  rw [ofRat_of_le htime64, Option.bind_eq_bind, Option.bind_some]
  generalize Binary64.nearest (m / 1000 : ℚ) = x at herror hstep ⊢
  have hx : |x * 1000 - m| ≤ |(m : ℚ)| / 2 ^ 53 + 1000 / 2 ^ 100 := by
    have hscale : x * 1000 - m = -1000 * (m / 1000 - x) := by ring
    have hthousand : |(-1000 : ℚ)| = 1000 := by norm_num
    rw [hscale, abs_mul, hthousand]
    rw [htime] at herror
    generalize (1 : ℚ) / 2 ^ 1075 = tiny at herror htiny
    linarith
  have hprod : |x * 1000| ≤ |(m : ℚ)| + 1 := by
    have := abs_sub_abs_le_abs_sub (x * 1000) (m : ℚ)
    linarith
  have hprod64 : |x * 1000| ≤ 2 ^ 64 := by linarith
  rw [ofRat_of_le hprod64, Option.bind_some]
  generalize Binary64.nearest (x * 1000) = y at hstep ⊢
  have hy : |y - m| < 1 / 2 := by
    have htri : |y - m| ≤ |x * 1000 - y| + |x * 1000 - m| := by
      have := abs_sub_le y (x * 1000) (m : ℚ)
      rwa [abs_sub_comm y (x * 1000)] at this
    generalize (1 : ℚ) / 2 ^ 1075 = tiny at hstep htiny
    linarith
  have hexact : (1000 * (m / 1000) : ℚ) = m := by ring
  rw [hexact, roundHalfEven, roundHalfEven, Binary64.halfEven_eq hy, Binary64.halfEven_intCast]
  rfl

example : ExactMillis (1 / 10) := by decide +kernel

/-- 2.0005 s are 2001 ms in binary64, not 2000, and a time of 400 digits overflows. -/
example : floatMillis (4001 / 2000) = some 2001 ∧ floatMillis (10 ^ 400) = none := by
  decide +kernel

/-! ## Reading the subtitles -/

/-- The number that a value stands for. -/
def Json.number? : Json → Option ℚ
  | .bool b => some (if b then 1 else 0)
  | .int n => some n
  | .float q => some q
  | .str s => match numeral s with
    | .ok (.fin q) => some q
    | _ => none
  | _ => none

/-- A segment: its times in seconds, and its text. -/
structure WhisperSegment where
  start : ℚ
  stop : ℚ
  text : String

/-- The value is the segment; missing times are 0, and a missing text is empty. -/
structure WhisperSegment.Of (seg : WhisperSegment) (v : Json) : Prop where
  start : ∃ x, v.get "start" = .ok x ∧ (x.getD (.float 0)).number? = some seg.start
  stop : ∃ x, v.get "end" = .ok x ∧ (x.getD (.float 0)).number? = some seg.stop
  text : v.get "text" = .ok (some (.str seg.text)) ∨
    (seg.text = "" ∧ ∃ x, v.get "text" = .ok x ∧ ∀ y, x = some y → y.truthy = false)

/-- The cue of a segment: the rounded times, and the stripped text. -/
def WhisperSegment.cue (index : ℕ) (seg : WhisperSegment) : Srt.Cue :=
  ⟨index, roundHalfEven (1000 * seg.start), roundHalfEven (1000 * seg.stop),
    (pyStrip seg.text).toList⟩

@[simp] theorem WhisperSegment.cue_text (index : ℕ) (seg : WhisperSegment) :
    (seg.cue index).text = (pyStrip seg.text).toList := by rw [WhisperSegment.cue]

variable {lib : Library} {seg : WhisperSegment} {v : Json}

theorem WhisperSegment.Of.textOf (h : seg.Of v) : textOf v = .ok (pyStrip seg.text) := by
  unfold MediaOrchard.textOf
  rcases h.text with htext | ⟨hempty, x, hx, hfalsy⟩
  · rw [htext]
    show (if Json.truthy (.str seg.text) = true then Except.ok (pyStrip seg.text) else .ok "") = _
    split_ifs with ht
    · rfl
    · have hnil : seg.text = "" := by simpa [Json.truthy] using ht
      rw [hnil, pyStrip_empty]
  · rw [hx, hempty, pyStrip_empty]
    cases x with
    | none => rfl
    | some y =>
      dsimp only [bind, Except.bind]
      rw [if_neg (by simp [hfalsy y rfl])]
      rfl

/-- The milliseconds of a float are those of the number it was rounded from. -/
theorem intRound_ofRat (t : ℚ) (ms : ℤ) :
    intRound (PyFloat.ofRat t).timesThousand = .ok ms ↔ floatMillis t = some ms := by
  unfold PyFloat.ofRat floatMillis
  cases Binary64.ofRat t with
  | none => simp [PyFloat.timesThousand, intRound]
  | some x =>
    simp only [PyFloat.timesThousand, PyFloat.ofRat, Option.bind_eq_bind, Option.bind_some]
    cases Binary64.ofRat (x * 1000) <;> simp [intRound]

theorem ofRat_bool (b : Bool) : PyFloat.ofRat (if b then 1 else 0) = .fin (if b then 1 else 0) := by
  have hzero : PyFloat.ofRat 0 = .fin 0 := by decide +kernel
  have hone : PyFloat.ofRat 1 = .fin 1 := by decide +kernel
  split_ifs
  · exact hone
  · exact hzero

/-- The milliseconds of a number. -/
theorem toFloat_millis (lib : Library) {t : ℚ} (h : v.number? = some t) (ms : ℤ) :
    (v.toFloat lib >>= fun seconds => intRound seconds.timesThousand) = .ok ms ↔
      floatMillis t = some ms := by
  rw [← intRound_ofRat]
  cases v with
  | null | arr | obj => cases h
  | bool b =>
    obtain rfl : (if b then 1 else 0) = t := Option.some.inj h
    rw [ofRat_bool]
    rfl
  | int n =>
    obtain rfl := Option.some.inj h
    cases hn : Binary64.ofRat (n : ℚ) with
    | none =>
      unfold PyFloat.ofRat Json.toFloat
      simp only [hn, floatOfInt_none hn]
      constructor
      · intro h
        cases h
      · intro h
        cases h
    | some x =>
      unfold PyFloat.ofRat Json.toFloat
      simp only [hn, floatOfInt_some hn]
      rfl
  | float q =>
    obtain rfl := Option.some.inj h
    rfl
  | str s =>
    unfold Json.number? at h
    change (((numeral s).map PyFloat.rounded).mapError _ >>= _) = _ ↔ _
    cases hs : numeral s with
    | error e => simp [hs] at h
    | ok x =>
      cases x with
      | fin q =>
        simp only [hs, Option.some.injEq] at h
        subst h
        rfl
      | inf | nan => simp [hs] at h

theorem segmentMillis_of (lib : Library) {key : String} {t : ℚ}
    (h : ∃ x, v.get key = .ok x ∧ (x.getD (.float 0)).number? = some t) (ms : ℤ) :
    segmentMillis lib v key = .ok ms ↔ floatMillis t = some ms := by
  obtain ⟨x, hx, hnumber⟩ := h
  rw [← toFloat_millis lib hnumber, segmentMillis, hx]
  rfl

/-- The cue of a segment in binary64. -/
theorem WhisperSegment.Of.segmentCue (h : seg.Of v) (index : ℕ) (c : Srt.Cue) :
    segmentCue lib index v = .ok c ↔ c.index = index ∧ floatMillis seg.start = some c.start ∧
      floatMillis seg.stop = some c.stop ∧ c.text = (pyStrip seg.text).toList := by
  rw [← segmentMillis_of lib h.start, ← segmentMillis_of lib h.stop, MediaOrchard.segmentCue,
    h.textOf]
  obtain ⟨i, start, stop, text⟩ := c
  cases segmentMillis lib v "start" <;> cases segmentMillis lib v "end" <;>
    simp [bind, Except.bind, pure, Except.pure, eq_comm]

theorem segmentCues_cons {index : ℕ} {vs : List Json} {cs : List Srt.Cue} :
    segmentCues lib index (v :: vs) = .ok cs ↔ ∃ c cs', cs = c :: cs' ∧
      segmentCue lib index v = .ok c ∧ segmentCues lib (index + 1) vs = .ok cs' := by
  rw [segmentCues]
  cases segmentCue lib index v <;> cases segmentCues lib (index + 1) vs <;>
    simp [bind, Except.bind, pure, Except.pure, eq_comm]

/-- Whatever the times, the texts of the cues are those of the segments. -/
theorem segmentCues_text {vs : List Json} {segs : List WhisperSegment}
    (h : List.Forall₂ (fun v seg => WhisperSegment.Of seg v) vs segs) {index : ℕ}
    {cs : List Srt.Cue} (hcs : segmentCues lib index vs = .ok cs) :
    cs.map Srt.Cue.text = segs.map fun seg => (pyStrip seg.text).toList := by
  induction h generalizing index cs with
  | nil =>
    cases hcs
    rfl
  | cons hv _ ih =>
    obtain ⟨c, cs', rfl, hc, hcs'⟩ := segmentCues_cons.1 hcs
    rw [List.map_cons, List.map_cons, ih hcs', ((hv.segmentCue _ _).1 hc).2.2.2]

variable (lib) in
/-- **The cues are those of the segments** if and only if every time is exact. -/
theorem segmentCues_of {vs : List Json} {segs : List WhisperSegment}
    (h : List.Forall₂ (fun v seg => WhisperSegment.Of seg v) vs segs) (index : ℕ) :
    segmentCues lib index vs = .ok (segs.mapIdx fun i seg => seg.cue (index + i)) ↔
      ∀ seg ∈ segs, ExactMillis seg.start ∧ ExactMillis seg.stop := by
  induction h generalizing index with
  | nil => simp [segmentCues]
  | @cons v seg vs segs hv _ ih =>
    have hhead : segmentCue lib index v = .ok (seg.cue index) ↔
        ExactMillis seg.start ∧ ExactMillis seg.stop := by
      rw [hv.segmentCue]
      simp [WhisperSegment.cue, ExactMillis]
    have htail := ih (index + 1)
    simp only [Nat.add_right_comm index 1, Nat.add_assoc] at htail
    rw [List.mapIdx_cons, segmentCues_cons, List.forall_mem_cons, ← hhead, ← htail]
    simp

/-- A text as a segment. -/
def sampleSegment (text : String) : Json :=
  .obj [("start", .int 0), ("end", .float (3 / 2)), ("text", .str text)]

/-- `str`, `repr` and `json` are not used by the samples. -/
def sampleLibrary : Library := ⟨fun _ => "", fun _ => .error "", fun _ => "", id⟩

end MediaOrchard
