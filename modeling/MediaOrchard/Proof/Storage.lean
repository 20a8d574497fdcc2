/-
  Disks under the operations of the Worker.

  * `Disk.Keeps`: nothing that exists is changed;
  * `MkdirsStep.keeps`, `MkdirsStep.unchanged`, `MkdirsStep.creatable`: what creating
    directories does, and when it can succeed;
  * `Disk.addDirs`, `addDirs_step`: the directories can be created;
  * `Granted`: the paths that the allowlist grants.
-/
import MediaOrchard.Proof.Allowlist

namespace MediaOrchard

open Posix Effects

/-! ## Disks -/

namespace Disk

/-- Nothing that exists on `d` is different on `d'`. -/
def Keeps (d d' : Disk) : Prop := ∀ q x, d.entry q = some x → d'.entry q = some x

theorem Keeps.trans {d d' d'' : Disk} (h : d.Keeps d') (h' : d'.Keeps d'') : d.Keeps d'' :=
  fun q x hx => h' q x (h q x hx)

/-- The parents of what exists are directories. -/
theorem dir_above (d : Disk) {q p : ResolvedPath} (hq : q <+: p) (hne : q ≠ p)
    (hp : (d.entry p).isSome) : d.entry q = some .dir := by
  induction p using List.reverseRecOn with
  | nil => exact absurd (List.prefix_nil.1 hq) hne
  | append_singleton p c ih =>
    have hdir := d.closed p c hp
    rcases List.prefix_concat_iff.1 hq with rfl | hq
    · exact absurd rfl hne
    · by_cases he : q = p
      · exact he ▸ hdir
      · exact ih hq he (by rw [hdir]; rfl)

/-- Nothing on the way to `p` is a file. -/
def Creatable (d : Disk) (p : ResolvedPath) : Prop :=
  ∀ q ∈ p.inits, d.entry q = none ∨ d.entry q = some .dir

instance (d : Disk) (p : ResolvedPath) : Decidable (d.Creatable p) :=
  inferInstanceAs (Decidable (∀ q ∈ p.inits, _))

theorem Creatable.above {d : Disk} {q p : ResolvedPath} (h : d.Creatable p) (hq : q <+: p) :
    d.Creatable q := by
  intro q' hq'
  rw [List.mem_inits] at hq'
  exact h q' (List.mem_inits _ _ |>.2 (hq'.trans hq))

/-- The disk with the directory `p`, and those on the way to it. -/
def addDirs (d : Disk) (p : ResolvedPath) (_h : d.Creatable p) : Disk where
  entry q := if q <+: p then some .dir else d.entry q
  root := if_pos List.nil_prefix
  closed q c hc := by
    split_ifs at hc with hq
    · exact if_pos ((List.prefix_append q [c]).trans hq)
    · split_ifs with hq'
      · rfl
      · exact d.closed q c hc

/-- The disk with the file `c` in the directory `p`. -/
def addFile (d : Disk) (p : ResolvedPath) (c data : String) (hp : d.entry p = some .dir)
    (hc : d.entry (p ++ [c]) ≠ some .dir) : Disk where
  entry q := if q = p ++ [c] then some (.file data) else d.entry q
  root := by rw [if_neg (by simp), d.root]
  closed q c' h := by
    have hdir : d.entry q = some .dir := by
      split_ifs at h with he
      · obtain ⟨rfl, -⟩ := List.append_inj' he rfl
        exact hp
      · exact d.closed q c' h
    rw [if_neg, hdir]
    rintro rfl
    exact hc hdir

end Disk

/-! ## Creating directories -/

variable {h : Host} {p : PurePath} {d d' : Disk} {r : Except SysError Unit}

theorem MkdirsStep.keeps (hs : MkdirsStep h p d r d') : d.Keeps d' := by
  intro q x hx
  rcases hs.created q with he | ⟨hnone, -⟩
  · rw [he, hx]
  · rw [hx] at hnone
    cases hnone

/-- A path that is resolved, and so are its parents. -/
structure Canonical (h : Host) (p : PurePath) : Prop where
  absolute : p.absolute
  real : ∀ a : PurePath, a.Above p → h.real a = a.parts

theorem Canonical.real_self (hp : Canonical h p) : h.real p = p.parts :=
  hp.real p ⟨rfl, List.prefix_refl _⟩

theorem Canonical.parent (hp : Canonical h p) : Canonical h p.parent :=
  ⟨hp.absolute, fun a ha => hp.real a ⟨ha.1, ha.2.trans (List.dropLast_prefix _)⟩⟩

/-- The directories created on the way to a canonical path are among its prefixes. -/
theorem MkdirsStep.created_above (hs : MkdirsStep h p d r d') (hp : Canonical h p)
    {q : ResolvedPath} (hne : d'.entry q ≠ d.entry q) :
    q <+: p.parts ∧ d.entry q = none ∧ d'.entry q = some .dir := by
  rcases hs.created q with he | ⟨hnone, hdir, a, ha, rfl⟩
  · exact absurd he hne
  · rw [hp.real a ha]
    rw [hp.real a ha] at hnone hdir
    exact ⟨ha.2, hnone, hdir⟩

/-- Nothing is created on the way to what exists. -/
theorem MkdirsStep.unchanged (hs : MkdirsStep h p d r d') (hp : Canonical h p)
    {q : ResolvedPath} (hq : p.parts <+: q) (hdir : d.entry q = some .dir) : d' = d := by
  ext1
  funext q'
  by_contra hne
  obtain ⟨hq', hnone, -⟩ := hs.created_above hp hne
  have hdir' : d.entry q' = some .dir := by
    by_cases heq : q' = q
    · rw [heq, hdir]
    · exact d.dir_above (hq'.trans hq) heq (by rw [hdir]; rfl)
  rw [hnone] at hdir'
  cases hdir'

/-- Directories are created only where nothing is in the way. -/
theorem MkdirsStep.creatable (hs : MkdirsStep h p d (.ok ()) d') (hp : Canonical h p) :
    d.Creatable p.parts := by
  intro q hq
  rw [List.mem_inits] at hq
  have hdone := hs.done rfl
  rw [hp.real_self] at hdone
  have hdir : d'.entry q = some .dir := by
    by_cases he : q = p.parts
    · rw [he, hdone]
    · exact d'.dir_above hq he (by rw [hdone]; rfl)
  rcases hs.created q with he | ⟨hnone, -⟩
  · exact Or.inr (he ▸ hdir)
  · exact Or.inl hnone

/-- The directories on the way to a canonical path can be created. -/
theorem addDirs_step (hp : Canonical h p) (hc : d.Creatable p.parts) :
    MkdirsStep h p d (.ok ()) (d.addDirs p.parts hc) where
  created q := by
    by_cases hq : q <+: p.parts
    · have hdir : (d.addDirs p.parts hc).entry q = some .dir := if_pos hq
      rcases hc q (List.mem_inits _ _ |>.2 hq) with he | he
      · refine Or.inr ⟨he, hdir, ⟨p.absolute, q, fun c hc => p.valid c (hq.subset hc)⟩, ?_⟩
        exact ⟨⟨rfl, hq⟩, hp.real _ ⟨rfl, hq⟩⟩
      · exact Or.inl (hdir.trans he.symm)
    · exact Or.inl (if_neg hq)
  done _ := by
    rw [hp.real_self]
    exact if_pos (List.prefix_refl _)

/-- What can be created stays so. -/
theorem Disk.Creatable.addDirs {q q' : ResolvedPath} (hq : d.Creatable q) (hq' : d.Creatable q') :
    (d.addDirs q' hq').Creatable q := by
  intro r hr
  by_cases hpre : r <+: q'
  · exact Or.inr (if_pos hpre)
  · show (if r <+: q' then _ else _) = none ∨ (if r <+: q' then _ else _) = some Entry.dir
    rw [if_neg hpre]
    exact hq r hr

/-- A host whose tree has no symbolic links. -/
theorem LinkFree.canonical (t : LinkFree) (habs : p.absolute) (hc : ∀ c ∈ p.parts, c ≠ "..") :
    Canonical t.host p := by
  refine ⟨habs, fun a ha => ?_⟩
  show normalize (if a.absolute then [] else t.cwd) a.parts = a.parts
  rw [if_pos (ha.1.trans habs), normalize_down fun c hca => hc c (ha.2.subset hca),
    List.nil_append]

/-! ## Granted paths -/

/-- The allowlist grants `p` for the argument `path`. -/
structure Granted (h : Host) (path : String) (roots : List String) (p : PurePath) : Prop
    extends Canonical h p where
  resolved : p.parts = h.resolve path
  inside : ∃ root ∈ roots, h.resolve root <+: p.parts
  clean : ∀ c ∈ p.parts, Clean c

variable {path : String} {roots : List String}

theorem Granted.str_eq (hp : Granted h path roots p) : p.str = ResolvedPath.str p.parts := by
  rw [PurePath.str, if_pos hp.absolute]
  rfl

/-- The text of a granted path is absolute, so it is not empty and no option. -/
theorem Granted.head (hp : Granted h path roots p) : p.str.toList.head? = some '/' := by
  rw [hp.str_eq, ResolvedPath.str_eq, toList_render]
  rfl

theorem Granted.ne_empty (hp : Granted h path roots p) : p.str ≠ "" := by
  intro he
  have hhead := hp.head
  rw [he] at hhead
  cases hhead

/-- What the allowlist returns is granted. -/
theorem granted_of_ok {q : ResolvedPath} (hq : h.resolveAllowlistedPath path roots = .ok q) :
    Granted h path roots (PurePath.ofString q.str) := by
  obtain ⟨hres, hroot⟩ : q = h.resolve path ∧ ∃ root ∈ roots, h.resolve root <+: h.resolve path :=
    resolveAllowlistedPath_ok.1 hq
  have hclean : ∀ c ∈ q, Clean c := hres ▸ h.real_clean _
  obtain ⟨habs, hparts⟩ := PurePath.ofString_render fun c hc => (hclean c hc).toSegment
  rw [ResolvedPath.str_eq]
  refine ⟨⟨habs, fun a ha => ?_⟩, hparts.trans hres, ?_, ?_⟩
  · have hreal : (PurePath.ofString (render q)).parts =
        h.real (h.expanduser (PurePath.ofString path)) := hparts.trans hres
    exact h.real_above _ a (ha.1 ▸ habs) (hreal ▸ ha.2)
  · rw [hparts, hres]
    exact hroot
  · rw [hparts]
    exact hclean

end MediaOrchard
