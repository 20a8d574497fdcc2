/-
  SubRip subtitles.

  * `Stamp`: a time as hours, minutes, seconds and milliseconds; `Stamp.chars` is
    its text, `readStamp` reads it back (`readStamp_chars`);
  * `Cue`: a numbered text with its times in milliseconds; `write` writes cues one
    after the other, each with an empty line before the next;
  * `read`: the blocks of lines between empty lines, each as a cue; `cues` skips
    the blocks that are none;
  * `read_write`: what was written is read back if and only if no text has an
    empty line; `write_paragraph`: of any text, what stands before its first
    empty line is read.
-/
import MediaOrchard.Lib.Text
import Mathlib.Algebra.Order.Group.Nat

namespace Srt

open Text

/-! ## Numbers -/

/-- The digits of a number behind zeros up to the width `w`. -/
def padded (w n : ℕ) : List Char := List.replicate (w - (digits n).length) '0' ++ digits n

/-- A number with its sign, behind zeros up to the width `w`. -/
def signed (w : ℕ) (n : ℤ) : List Char :=
  if n < 0 then '-' :: padded (w - 1) n.natAbs else padded w n.natAbs

@[simp] theorem signed_natCast (w n : ℕ) : signed w n = padded w n := if_neg (by simp)

/-- A number below `b` in `w` digits. -/
def readField (w b : ℕ) (cs : List Char) : Option (Fin b) :=
  if cs.length = w then
    (readDigits cs).bind fun n => if h : n < b then some ⟨n, h⟩ else none
  else none

/-- A number in at least `w` characters. -/
def readSigned (w : ℕ) (cs : List Char) : Option ℤ :=
  if w ≤ cs.length then
    match cs with
    | '-' :: ds => (readDigits ds).map fun n : ℕ => -(n : ℤ)
    | ds => (readDigits ds).map Int.ofNat
  else none

theorem readDigits_padded (w n : ℕ) : readDigits (padded w n) = some n := readDigits_pad _ n

theorem isDigit_of_mem_padded {w n : ℕ} {c : Char} (h : c ∈ padded w n) : c.isDigit := by
  rcases List.mem_append.1 h with h | h
  · rw [List.eq_of_mem_replicate h]
    rfl
  · exact isDigit_of_mem_digits h

theorem le_length_padded (w n : ℕ) : w ≤ (padded w n).length := by
  simp only [padded, List.length_append, List.length_replicate]
  omega

theorem length_padded {w n : ℕ} (hw : 0 < w) (hn : n < 10 ^ w) : (padded w n).length = w := by
  have hlen : (digits n).length ≤ w := by
    rw [digits_eq]
    exact (Nat.length_toDigits_le_iff (by decide) hw).2 hn
  simp only [padded, List.length_append, List.length_replicate]
  omega

theorem readField_padded {w b : ℕ} (hw : 0 < w) (hb : b ≤ 10 ^ w) (n : Fin b) :
    readField w b (padded w n) = some n := by
  rw [readField, if_pos (length_padded hw (n.isLt.trans_le hb)), readDigits_padded]
  exact dif_pos n.isLt

theorem readSigned_signed (w : ℕ) (n : ℤ) : readSigned w (signed w n) = some n := by
  unfold signed
  split_ifs with hn
  · have hlen : w ≤ ('-' :: padded (w - 1) n.natAbs).length := by
      have := le_length_padded (w - 1) n.natAbs
      rw [List.length_cons]
      omega
    unfold readSigned
    rw [if_pos hlen]
    show (readDigits (padded (w - 1) n.natAbs)).map (fun n : ℕ => -(n : ℤ)) = some n
    rw [readDigits_padded, Option.map_some]
    congr 1
    omega
  · unfold readSigned
    rw [if_pos (le_length_padded w n.natAbs)]
    split
    · next heq =>
      have hdigit := isDigit_of_mem_padded (heq ▸ List.mem_cons_self : '-' ∈ padded w n.natAbs)
      cases hdigit
    · rw [readDigits_padded, Option.map_some]
      exact congrArg some (Int.natAbs_of_nonneg (not_lt.1 hn))

/-! ## Times -/

/-- A time as it is written. -/
@[ext]
structure Stamp where
  hours : ℤ
  minutes : Fin 60
  seconds : Fin 60
  millis : Fin 1000

namespace Stamp

/-- The time in milliseconds. -/
def total (t : Stamp) : ℤ := ((t.hours * 60 + t.minutes) * 60 + t.seconds) * 1000 + t.millis

/-- The stamp of a number of milliseconds. -/
def ofMillis (ms : ℤ) : Stamp where
  hours := ms / 3600000
  minutes := ⟨(ms / 60000 % 60).toNat, by omega⟩
  seconds := ⟨(ms / 1000 % 60).toNat, by omega⟩
  millis := ⟨(ms % 1000).toNat, by omega⟩

@[simp] theorem total_ofMillis (ms : ℤ) : (ofMillis ms).total = ms := by
  simp only [total, ofMillis]
  omega

/-- `hh:mm:ss,mmm` -/
def chars (t : Stamp) : List Char :=
  signed 2 t.hours ++ ':' :: (padded 2 t.minutes ++ ':' :: (padded 2 t.seconds ++
    ',' :: padded 3 t.millis))

end Stamp

/-- The parts before and after the first `x`, if there is one. -/
def cut (x : Char) (cs : List Char) : Option (List Char × List Char) :=
  match partition x cs with
  | (before, some after) => some (before, after)
  | (_, none) => none

theorem cut_append {x : Char} {l : List Char} (h : x ∉ l) (r : List Char) :
    cut x (l ++ x :: r) = some (l, r) := by
  rw [cut, partition_append_cons h]

/-- The stamp with the given text. -/
def readStamp (cs : List Char) : Option Stamp := do
  let (hours, rest) ← cut ':' cs
  let (minutes, rest) ← cut ':' rest
  let (seconds, millis) ← cut ',' rest
  return ⟨← readSigned 2 hours, ← readField 2 60 minutes, ← readField 2 60 seconds,
    ← readField 3 1000 millis⟩

theorem not_mem_padded {w n : ℕ} {c : Char} (h : c.isDigit = false) : c ∉ padded w n := fun hc => by
  rw [isDigit_of_mem_padded hc] at h
  cases h

theorem mem_signed {w : ℕ} {n : ℤ} {c : Char} (h : c ∈ signed w n) : c = '-' ∨ c.isDigit := by
  unfold signed at h
  split_ifs at h
  · exact (List.mem_cons.1 h).imp_right isDigit_of_mem_padded
  · exact Or.inr (isDigit_of_mem_padded h)

/-- **A time is read back from its text.** -/
theorem readStamp_chars (t : Stamp) : readStamp t.chars = some t := by
  have hhours : ':' ∉ signed 2 t.hours := fun h => by
    rcases mem_signed h with h | h <;> cases h
  unfold readStamp Stamp.chars
  rw [cut_append hhours, Option.bind_eq_bind, Option.bind_some]
  dsimp only
  rw [cut_append (not_mem_padded rfl), Option.bind_some]
  dsimp only
  rw [cut_append (not_mem_padded rfl), Option.bind_some]
  dsimp only
  rw [readSigned_signed, readField_padded (by decide) (by decide),
    readField_padded (by decide) (by decide), readField_padded (by decide) (by decide)]
  rfl

/-- The characters of a time. -/
theorem Stamp.mem_chars {t : Stamp} {c : Char} (h : c ∈ t.chars) :
    c = '-' ∨ c = ':' ∨ c = ',' ∨ c.isDigit := by
  simp only [Stamp.chars, List.mem_append, List.mem_cons] at h
  rcases h with h | h | h | h | h | h | h
  · exact (mem_signed h).imp_right fun h => Or.inr (Or.inr h)
  · exact Or.inr (Or.inl h)
  · exact Or.inr (Or.inr (Or.inr (isDigit_of_mem_padded h)))
  · exact Or.inr (Or.inl h)
  · exact Or.inr (Or.inr (Or.inr (isDigit_of_mem_padded h)))
  · exact Or.inr (Or.inr (Or.inl h))
  · exact Or.inr (Or.inr (Or.inr (isDigit_of_mem_padded h)))

theorem Stamp.not_mem_chars {t : Stamp} {c : Char} (h : c = ' ' ∨ c = '\n') : c ∉ t.chars := by
  intro hc
  rcases h with rfl | rfl <;> rcases Stamp.mem_chars hc with h | h | h | h <;> cases h

/-! ## Cues -/

/-- A numbered text, with its times in milliseconds. -/
@[ext]
structure Cue where
  index : ℕ
  start : ℤ
  stop : ℤ
  text : List Char
  deriving DecidableEq

/-- The arrow between the times. -/
def arrow : List Char := ['-', '-', '>']

/-- `start --> stop` -/
def timesLine (start stop : ℤ) : List Char :=
  (Stamp.ofMillis start).chars ++ ' ' :: (arrow ++ ' ' :: (Stamp.ofMillis stop).chars)

/-- The times of a line `start --> stop`. -/
def readTimes (cs : List Char) : Option (ℤ × ℤ) := do
  let (start, rest) ← cut ' ' cs
  let (mark, stop) ← cut ' ' rest
  if mark = arrow then return ((← readStamp start).total, (← readStamp stop).total)
  else none

theorem readTimes_timesLine (start stop : ℤ) :
    readTimes (timesLine start stop) = some (start, stop) := by
  unfold readTimes timesLine
  rw [cut_append (Stamp.not_mem_chars (Or.inl rfl)), Option.bind_eq_bind, Option.bind_some]
  dsimp only
  rw [cut_append (by decide), Option.bind_some]
  dsimp only
  rw [if_pos rfl, readStamp_chars, readStamp_chars, Option.bind_eq_bind, Option.bind_some,
    Option.bind_some, Stamp.total_ofMillis, Stamp.total_ofMillis]
  rfl

/-- The lines of a text; the empty text has none. -/
def textLines (text : List Char) : List (List Char) :=
  if text = [] then [] else text.splitOn '\n'

/-- No line of the text is empty, unless the text is. -/
def NoEmptyLine (text : List Char) : Prop := [] ∉ textLines text

instance (text : List Char) : Decidable (NoEmptyLine text) := inferInstanceAs (Decidable (¬ _))

/-- A cue as it is written. -/
def Cue.chars (c : Cue) : List Char :=
  digits c.index ++ '\n' :: (timesLine c.start c.stop ++ '\n' :: (c.text ++ ['\n']))

/-- The cues one after the other, each with an empty line before the next. -/
def write (cs : List Cue) : List Char := ['\n'].intercalate (cs.map Cue.chars)

/-! ## Reading -/

/-- The blocks of lines between empty lines. -/
def blocks (ls : List (List Char)) : List (List (List Char)) :=
  (ls.splitOn []).filter fun b => b ≠ []

/-- A block as a cue: the index, the times, and the lines of the text. -/
def readCue : List (List Char) → Option Cue
  | index :: times :: text => do
    let n ← readDigits index
    let (start, stop) ← readTimes times
    return ⟨n, start, stop, ['\n'].intercalate text⟩
  | _ => none

/-- The subtitles of a text, if every block is a cue. -/
def read (cs : List Char) : Option (List Cue) := (blocks (cs.splitOn '\n')).mapM readCue

/-- The cues of a text; the blocks that are no cues are skipped. -/
def cues (cs : List Char) : List Cue := (blocks (cs.splitOn '\n')).filterMap readCue

/-! ## Blocks -/

@[simp] theorem blocks_nil : blocks [] = [] := rfl

/-- An empty line ends a block. -/
theorem blocks_append (l r : List (List Char)) : blocks (l ++ [] :: r) = blocks l ++ blocks r := by
  rw [blocks, List.splitOn_append_cons_self, List.filter_append]
  rfl

theorem blocks_single {l : List (List Char)} (hl : l ≠ []) (h : [] ∉ l) : blocks l = [l] := by
  rw [blocks, List.splitOn_eq_singleton h]
  simp [hl]

/-- A block has no empty line. -/
theorem nil_not_mem_block {ls b : List (List Char)} (h : b ∈ blocks ls) : [] ∉ b :=
  not_mem_piece (List.mem_filter.1 h).1

theorem block_subset {ls b : List (List Char)} (h : b ∈ blocks ls) : b ⊆ ls :=
  piece_subset (List.mem_filter.1 h).1

/-- The first two lines of a cue. -/
def Cue.header (c : Cue) : List (List Char) := [digits c.index, timesLine c.start c.stop]

theorem newline_not_mem_timesLine (start stop : ℤ) : '\n' ∉ timesLine start stop := by
  simp only [timesLine, arrow, List.mem_append, List.mem_cons, not_or]
  refine ⟨Stamp.not_mem_chars (Or.inr rfl), by decide, ⟨by decide, by decide, by decide, by simp⟩,
    by decide, Stamp.not_mem_chars (Or.inr rfl)⟩

theorem Cue.nil_not_mem_header (c : Cue) : [] ∉ c.header := by
  simp [Cue.header, digits_ne_nil, timesLine]

/-- The lines of a cue. -/
theorem Cue.lines_chars (c : Cue) :
    c.chars.splitOn '\n' = c.header ++ (c.text.splitOn '\n' ++ [[]]) := by
  have hindex : '\n' ∉ digits c.index := fun h => by cases isDigit_of_mem_digits h
  rw [Cue.chars, List.splitOn_append_cons_self_of_not_mem hindex,
    List.splitOn_append_cons_self_of_not_mem (newline_not_mem_timesLine _ _),
    List.splitOn_append_cons_self]
  rfl

theorem blocks_splitOn (h : List (List Char)) (text : List Char) :
    blocks (h ++ text.splitOn '\n') = blocks (h ++ textLines text) := by
  unfold textLines
  split_ifs with ht
  · subst ht
    rw [List.splitOn_nil, blocks_append, blocks_nil, List.append_nil, List.append_nil]
  · rfl

/-- **The blocks of written cues** are those of the cues. -/
theorem blocks_write (cs : List Cue) :
    blocks ((write cs).splitOn '\n') = cs.flatMap fun c => blocks (c.header ++ textLines c.text) := by
  by_cases hcs : cs = []
  · subst hcs
    rfl
  · rw [write, splitOn_intercalate_splitOn '\n' (by simpa using hcs), List.flatMap_map]
    clear hcs
    induction cs with
    | nil => rfl
    | cons c cs ih =>
      rw [List.flatMap_cons, List.flatMap_cons, Cue.lines_chars, ← ih, ← blocks_splitOn,
        ← blocks_append]
      simp

/-! ## Cues read back -/

theorem readCue_header (c : Cue) (ls : List (List Char)) :
    readCue (c.header ++ ls) = some { c with text := ['\n'].intercalate ls } := by
  show (do
    let n ← readDigits (digits c.index)
    let (start, stop) ← readTimes (timesLine c.start c.stop)
    return (⟨n, start, stop, ['\n'].intercalate ls⟩ : Cue)) = _
  rw [readDigits_digits, readTimes_timesLine]
  rfl

theorem intercalate_textLines (text : List Char) : ['\n'].intercalate (textLines text) = text := by
  unfold textLines
  split_ifs with ht
  · exact ht.symm
  · exact List.intercalate_splitOn '\n'

theorem blocks_cue {c : Cue} (h : NoEmptyLine c.text) :
    blocks (c.header ++ textLines c.text) = [c.header ++ textLines c.text] := by
  refine blocks_single (by simp [Cue.header]) fun hnil => ?_
  exact (List.mem_append.1 hnil).elim c.nil_not_mem_header h

/-- What a block is read as has no empty line. -/
theorem noEmptyLine_of_readCue {ls : List (List Char)} {b : List (List Char)} {c : Cue}
    (hb : b ∈ blocks ls) (hls : ∀ l ∈ ls, '\n' ∉ l) (hc : readCue b = some c) :
    NoEmptyLine c.text := by
  have hnil := nil_not_mem_block hb
  have hlines : ∀ l ∈ b, '\n' ∉ l := fun l hl => hls l (block_subset hb hl)
  match b, hc with
  | index :: times :: text, hc =>
    obtain ⟨n, -, hc⟩ := Option.bind_eq_some_iff.1 hc
    obtain ⟨⟨start, stop⟩, -, hc⟩ := Option.bind_eq_some_iff.1 hc
    cases hc
    dsimp only
    unfold NoEmptyLine textLines
    split_ifs with ht
    · exact List.not_mem_nil
    · have htext : text ≠ [] := fun h => ht (by rw [h]; rfl)
      rw [List.splitOn_intercalate _ (fun l hl => hlines l (by simp [hl])) htext]
      exact fun h => hnil (by simp [h])

theorem mem_of_mapM {α β : Type} {f : α → Option β} {l : List α} {l' : List β} {b : β}
    (h : l.mapM f = some l') (hb : b ∈ l') : ∃ a ∈ l, f a = some b := by
  induction l generalizing l' with
  | nil =>
    cases h
    cases hb
  | cons a l ih =>
    rw [List.mapM_cons] at h
    obtain ⟨b', hb', h⟩ := Option.bind_eq_some_iff.1 h
    obtain ⟨bs, hbs, h⟩ := Option.bind_eq_some_iff.1 h
    cases h
    rcases List.mem_cons.1 hb with rfl | hb
    · exact ⟨a, List.mem_cons_self, hb'⟩
    · obtain ⟨a', ha', hfa⟩ := ih hbs hb
      exact ⟨a', List.mem_cons_of_mem _ ha', hfa⟩

/-- No cue that is read has an empty line. -/
theorem noEmptyLine_of_read {cs : List Char} {l : List Cue} (h : read cs = some l) :
    ∀ c ∈ l, NoEmptyLine c.text := by
  intro c hc
  obtain ⟨b, hb, hread⟩ := mem_of_mapM h hc
  exact noEmptyLine_of_readCue hb (fun l hl => not_mem_piece hl) hread

/-- **Cues are read back if and only if no text has an empty line.** -/
theorem read_write (cs : List Cue) :
    read (write cs) = some cs ↔ ∀ c ∈ cs, NoEmptyLine c.text := by
  constructor
  · exact noEmptyLine_of_read
  · intro h
    unfold read
    rw [blocks_write]
    induction cs with
    | nil => rfl
    | cons c cs ih =>
      rw [List.flatMap_cons, blocks_cue (h c List.mem_cons_self), List.singleton_append,
        List.mapM_cons, readCue_header, intercalate_textLines,
        ih fun c' hc' => h c' (List.mem_cons_of_mem c hc')]
      rfl

theorem cues_of_read {cs : List Char} {l : List Cue} (h : read cs = some l) : cues cs = l := by
  unfold read at h
  unfold cues
  generalize blocks (cs.splitOn '\n') = bs at h ⊢
  induction bs generalizing l with
  | nil =>
    cases h
    rfl
  | cons b bs ih =>
    rw [List.mapM_cons] at h
    obtain ⟨c, hc, h⟩ := Option.bind_eq_some_iff.1 h
    obtain ⟨l', hl', h⟩ := Option.bind_eq_some_iff.1 h
    cases h
    rw [List.filterMap_cons_some hc, ih hl']

/-! ## Paragraphs -/

/-- The text up to its first empty line. -/
def paragraph (text : List Char) : List Char :=
  ['\n'].intercalate ((textLines text).takeWhile fun l => l ≠ [])

/-- **Of any text, what stands before its first empty line is read.** -/
theorem write_paragraph {cs : List Cue} {c : Cue} (h : c ∈ cs) :
    { c with text := paragraph c.text } ∈ cues (write cs) := by
  have hblock : c.header ++ (textLines c.text).takeWhile (fun l => l ≠ []) ∈
      blocks (c.header ++ textLines c.text) := by
    have hfirst : blocks (c.header ++ (textLines c.text).takeWhile fun l => l ≠ []) =
        [c.header ++ (textLines c.text).takeWhile fun l => l ≠ []] := by
      refine blocks_single (by simp [Cue.header]) fun hnil => ?_
      rcases List.mem_append.1 hnil with hnil | hnil
      · exact c.nil_not_mem_header hnil
      · simpa using List.mem_takeWhile_imp hnil
    have hall : (textLines c.text).takeWhile (fun l => l ≠ []) ++
        (textLines c.text).dropWhile (fun l => l ≠ []) = textLines c.text :=
      List.takeWhile_append_dropWhile
    generalize hP : (textLines c.text).takeWhile (fun l => l ≠ []) = P at hfirst hall ⊢
    cases hrest : (textLines c.text).dropWhile fun l => l ≠ [] with
    | nil =>
      rw [hrest, List.append_nil] at hall
      rw [← hall, hfirst]
      exact List.mem_singleton_self _
    | cons l ls =>
      have hl : l = [] := by
        have hhead := List.head?_dropWhile_not (fun l : List Char => l ≠ []) (textLines c.text)
        rw [hrest] at hhead
        simpa using hhead
      rw [hrest, hl] at hall
      rw [← hall, ← List.append_assoc, blocks_append, hfirst]
      exact List.mem_cons_self
  refine List.mem_filterMap.2 ⟨_, ?_, readCue_header c _⟩
  rw [blocks_write]
  exact List.mem_flatMap.2 ⟨c, h, hblock⟩

/-- The first character of a text that does not begin with an empty line is read. -/
theorem head_mem_paragraph {a : Char} {text : List Char} (h : a ≠ '\n') :
    a ∈ paragraph (a :: text) := by
  unfold paragraph textLines
  rw [if_neg (List.cons_ne_nil a text), List.splitOn_cons_eq_if_modifyHead, if_neg (by simpa using h)]
  cases hlines : text.splitOn '\n' with
  | nil => exact absurd hlines (List.splitOn_ne_nil '\n' text)
  | cons l ls =>
    rw [List.modifyHead_cons, List.takeWhile_cons_of_pos (by simp)]
    cases ls.takeWhile fun l => l ≠ [] <;> simp

end Srt
