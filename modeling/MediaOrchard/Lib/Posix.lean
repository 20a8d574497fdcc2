/-
  POSIX paths as strings, as segments and as canonical component lists.

  * `segments s`: the segments of a path string, empty ones and `.` dropped;
  * `PurePath`: a path that has been parsed but not resolved, as `pathlib` holds it;
    its parts are segments; a text is its own name iff it is empty or one segment
    (`PurePath.name_ofString`), and different children are apart (`join_above_join`);
  * `Clean`: a component that names an entry of a directory, so neither `.` nor
    `..`; a canonical path is a list of clean components below the root;
  * `render`: the text of a canonical path, read back by `segments` (`segments_render`);
  * `normalize base segs`: lexical resolution of segments from a directory, the
    resolution of a tree without symbolic links; it is clean (`normalize_clean`).
-/
import MediaOrchard.Lib.Text

namespace Posix

/-! ## Segments and components -/

/-- The segments of a path string, empty ones and `.` dropped. -/
def segments (s : String) : List String :=
  ((s.toList.splitOn '/').map String.ofList).filter fun c => c ≠ "" ∧ c ≠ "."

/-- A segment of a parsed path. -/
structure Segment (c : String) : Prop where
  ne_empty : c ≠ ""
  ne_dot : c ≠ "."
  no_slash : '/' ∉ c.toList

/-- A component of a canonical path. -/
structure Clean (c : String) : Prop extends Segment c where
  ne_dotdot : c ≠ ".."

theorem clean_iff {c : String} : Clean c ↔ c ≠ "" ∧ c ≠ "." ∧ c ≠ ".." ∧ '/' ∉ c.toList :=
  ⟨fun h => ⟨h.ne_empty, h.ne_dot, h.ne_dotdot, h.no_slash⟩,
    fun ⟨h1, h2, h3, h4⟩ => ⟨⟨h1, h2, h4⟩, h3⟩⟩

instance (c : String) : Decidable (Clean c) := decidable_of_iff' _ clean_iff

theorem segments_segment {s c : String} (h : c ∈ segments s) : Segment c := by
  simp only [segments, List.mem_filter, List.mem_map, decide_eq_true_eq] at h
  obtain ⟨⟨l, hl, rfl⟩, hne, hdot⟩ := h
  refine ⟨hne, hdot, ?_⟩
  rw [String.toList_ofList]
  exact Text.not_mem_piece hl

/-- The text of the absolute path with the given segments. -/
def render (p : List String) : String := "/" ++ "/".intercalate p

theorem toList_render (p : List String) :
    (render p).toList = '/' :: ['/'].intercalate (p.map String.toList) := by
  rw [render, String.toList_append, String.toList_intercalate]
  rfl

theorem segments_render {p : List String} (h : ∀ c ∈ p, Segment c) : segments (render p) = p := by
  have hfilter : p.filter (fun c => c ≠ "" ∧ c ≠ ".") = p := by
    refine List.filter_eq_self.2 fun c hc => ?_
    simpa using And.intro (h c hc).ne_empty (h c hc).ne_dot
  have hofList : (p.map String.toList).map String.ofList = p := by
    rw [List.map_map]
    exact List.map_id'' (fun c => String.ofList_toList) p
  unfold segments
  rw [toList_render]
  cases p with
  | nil => rfl
  | cons c cs =>
    have hsplit : ('/' :: ['/'].intercalate ((c :: cs).map String.toList)).splitOn '/' =
        [] :: (c :: cs).map String.toList := by
      have hcons := List.splitOn_append_cons_self_of_not_mem (a := '/')
        List.not_mem_nil (['/'].intercalate ((c :: cs).map String.toList))
      rw [List.nil_append] at hcons
      rw [hcons, List.splitOn_intercalate]
      · intro l hl
        obtain ⟨d, hd, rfl⟩ := List.mem_map.1 hl
        exact (h d hd).no_slash
      · simp
    rw [hsplit, List.map_cons, hofList, List.filter_cons_of_neg (by simp)]
    exact hfilter

/-! ## Parsed paths -/

/-- A parsed path (`pathlib.PurePosixPath`): `..` is kept. -/
structure PurePath where
  absolute : Bool
  parts : List String
  valid : ∀ c ∈ parts, Segment c

namespace PurePath

@[ext] theorem ext {p q : PurePath} (ha : p.absolute = q.absolute) (hp : p.parts = q.parts) :
    p = q := by
  cases p
  cases q
  cases ha
  cases hp
  rfl

/-- `Path(s)`. A root of two slashes, which pathlib keeps, counts as one. -/
def ofString (s : String) : PurePath where
  absolute := s.toList.head? = some '/'
  parts := segments s
  valid _ hc := segments_segment hc

/-- `str(path)` -/
def str (p : PurePath) : String :=
  if p.absolute then render p.parts
  else if p.parts = [] then "." else "/".intercalate p.parts

/-- The segments of `q` followed from `p`. -/
def append (p q : PurePath) : PurePath where
  absolute := p.absolute
  parts := p.parts ++ q.parts
  valid c hc := (List.mem_append.1 hc).elim (p.valid c) (q.valid c)

/-- `path / s` -/
def join (p : PurePath) (s : String) : PurePath :=
  if (ofString s).absolute then ofString s else p.append (ofString s)

/-- `path.parent` -/
def parent (p : PurePath) : PurePath where
  absolute := p.absolute
  parts := p.parts.dropLast
  valid c hc := p.valid c (List.mem_of_mem_dropLast hc)

/-- `path.name` -/
def name (p : PurePath) : String := (p.parts.getLast?).getD ""

/-- `p` is `q` or one of `q.parents`. -/
def Above (p q : PurePath) : Prop := p.absolute = q.absolute ∧ p.parts <+: q.parts

theorem str_ne_empty (p : PurePath) : p.str ≠ "" := by
  unfold str
  split_ifs with habs hnil
  · intro h
    have hlist := congrArg String.toList h
    rw [toList_render] at hlist
    cases hlist
  · decide
  · obtain ⟨c, cs, hp⟩ := List.exists_cons_of_ne_nil hnil
    have hc : c ≠ "" := (p.valid c (hp ▸ List.mem_cons_self)).ne_empty
    intro h
    have hlist := congrArg String.toList h
    rw [String.toList_intercalate, hp] at hlist
    cases cs <;> simp_all

theorem ofString_render {p : List String} (h : ∀ c ∈ p, Segment c) :
    (ofString (render p)).absolute ∧ (ofString (render p)).parts = p := by
  refine ⟨?_, segments_render h⟩
  show decide ((render p).toList.head? = some '/') = true
  rw [toList_render]
  rfl

/-- A segment is a relative path of one part. -/
theorem ofString_segment {c : String} (hc : Segment c) :
    (ofString c).absolute = false ∧ (ofString c).parts = [c] := by
  have hsplit : c.toList.splitOn '/' = [c.toList] := List.splitOn_eq_singleton hc.no_slash
  constructor
  · refine decide_eq_false fun h => ?_
    exact hc.no_slash (List.mem_of_mem_head? h)
  · show segments c = [c]
    unfold segments
    rw [hsplit, List.map_singleton, String.ofList_toList, List.filter_cons_of_pos]
    · rfl
    · simpa using And.intro hc.ne_empty hc.ne_dot

/-- **A text is its own name** if and only if it is empty or one segment. -/
theorem name_ofString (s : String) : (ofString s).name = s ↔ s = "" ∨ Segment s := by
  constructor
  · intro hname
    unfold name at hname
    cases hlast : (ofString s).parts.getLast? with
    | none =>
      rw [hlast] at hname
      exact Or.inl hname.symm
    | some c =>
      rw [hlast] at hname
      obtain rfl : c = s := hname
      exact Or.inr ((ofString c).valid c (List.mem_of_getLast? hlast))
  · rintro (rfl | hs)
    · rfl
    · rw [name, (ofString_segment hs).2]
      rfl

/-- A name joined to a path is one more segment. -/
theorem join_segment (p : PurePath) {c : String} (hc : Segment c) :
    (p.join c).absolute = p.absolute ∧ (p.join c).parts = p.parts ++ [c] := by
  obtain ⟨habs, hparts⟩ := ofString_segment hc
  unfold join
  rw [habs]
  exact ⟨rfl, congrArg (p.parts ++ ·) hparts⟩

/-- **Children of a path are apart**: one is above the other only if it is the other. -/
theorem join_above_join (p : PurePath) {c d : String} (hc : Segment c) (hd : Segment d) :
    (p.join c).Above (p.join d) ↔ c = d := by
  obtain ⟨habs, hparts⟩ := p.join_segment hc
  obtain ⟨habs', hparts'⟩ := p.join_segment hd
  unfold Above
  rw [habs, habs', hparts, hparts', List.prefix_append_right_inj, List.cons_prefix_cons]
  exact ⟨fun h => h.2.1, fun h => ⟨rfl, h, List.nil_prefix⟩⟩

end PurePath

/-! ## Lexical resolution -/

/-- The directory reached from `base` by following `segs` on a tree without
    symbolic links; `..` stays at the root. -/
def normalize (base segs : List String) : List String :=
  segs.foldl (fun acc c => if c = ".." then acc.dropLast else acc ++ [c]) base

@[simp] theorem normalize_nil (base : List String) : normalize base [] = base := rfl

@[simp] theorem normalize_cons (base : List String) (c : String) (segs : List String) :
    normalize base (c :: segs) =
      normalize (if c = ".." then base.dropLast else base ++ [c]) segs := rfl

/-- Segments that do not go up are followed one below the other. -/
theorem normalize_down {base segs : List String} (h : ∀ c ∈ segs, c ≠ "..") :
    normalize base segs = base ++ segs := by
  induction segs generalizing base with
  | nil => rw [normalize_nil, List.append_nil]
  | cons c segs ih =>
    rw [normalize_cons, if_neg (h c List.mem_cons_self),
      ih fun d hd => h d (List.mem_cons_of_mem c hd), List.append_assoc]
    rfl

/-- **Lexical resolution is canonical**: what it reaches has no `.` and no `..`. -/
theorem normalize_clean {base segs : List String} (hb : ∀ c ∈ base, Clean c)
    (hs : ∀ c ∈ segs, Segment c) : ∀ c ∈ normalize base segs, Clean c := by
  induction segs generalizing base with
  | nil => exact hb
  | cons c segs ih =>
    rw [normalize_cons]
    refine ih (fun d hd => ?_) fun d hd => hs d (List.mem_cons_of_mem c hd)
    split_ifs at hd with hc
    · exact hb d (List.mem_of_mem_dropLast hd)
    · rcases List.mem_append.1 hd with hd | hd
      · exact hb d hd
      · rw [List.mem_singleton.1 hd]
        exact ⟨hs c List.mem_cons_self, hc⟩

end Posix
