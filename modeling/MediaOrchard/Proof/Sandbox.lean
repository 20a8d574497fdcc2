/-
  Programs on a disk, carried out.

  * `FiniteDisk`: a disk of which the names in use are known;
  * `FileOp.exec`: the operations on a tree without symbolic links, where a command
    answers and writes what `tool` says;
  * `exec_step`: what is carried out is what an operation may answer and do.
-/
import MediaOrchard.Proof.Storage

namespace MediaOrchard

open Posix Effects

/-- A disk, and the names that its paths are made of. -/
structure FiniteDisk extends Disk where
  names : List String
  named : ∀ p, (entry p).isSome → ∀ c ∈ p, c ∈ names

namespace FiniteDisk

variable (s : FiniteDisk)

/-- The names in a directory. -/
def list (p : ResolvedPath) : List String := s.names.filter fun c => (s.entry (p ++ [c])).isSome

theorem mem_list (p : ResolvedPath) (c : String) : c ∈ s.list p ↔ (s.entry (p ++ [c])).isSome := by
  rw [list, List.mem_filter]
  exact ⟨fun h => h.2, fun h => ⟨s.named _ h c (by simp), h⟩⟩

/-- The directory `p` and those on the way to it are created. -/
def makeDirs (p : ResolvedPath) (hp : s.toDisk.Creatable p) : FiniteDisk where
  toDisk := s.toDisk.addDirs p hp
  names := s.names ++ p
  named q hq c hc := by
    by_cases hpre : q <+: p
    · exact List.mem_append_right _ (hpre.subset hc)
    · have hentry : (s.toDisk.addDirs p hp).entry q = s.entry q := if_neg hpre
      rw [hentry] at hq
      exact List.mem_append_left _ (s.named q hq c hc)

/-- The file `c` in the directory `p` is written. -/
def putFile (p : ResolvedPath) (c data : String) (hp : s.entry p = some .dir)
    (hc : s.entry (p ++ [c]) ≠ some .dir) : FiniteDisk where
  toDisk := s.toDisk.addFile p c data hp hc
  names := c :: s.names
  named q hq e he := by
    by_cases hfile : q = p ++ [c]
    · subst hfile
      rcases List.mem_append.1 he with he | he
      · exact List.mem_cons_of_mem c (s.named p (by rw [hp]; rfl) e he)
      · obtain rfl := List.mem_singleton.1 he
        exact List.mem_cons_self
    · have hentry : (s.toDisk.addFile p c data hp hc).entry q = s.entry q := if_neg hfile
      rw [hentry] at hq
      exact List.mem_cons_of_mem c (s.named q hq e he)

end FiniteDisk

/-! ## Carrying out -/

/-- The path is absolute and has no `..`. -/
def Direct (p : PurePath) : Prop := p.absolute = true ∧ ∀ c ∈ p.parts, c ≠ ".."

instance (p : PurePath) : Decidable (Direct p) := inferInstanceAs (Decidable (_ ∧ _))

/-- The failure of an operation. -/
def osError {α : Type} : Except SysError α := .error ⟨true, "failed"⟩

variable (t : LinkFree) (tool : List String → Completed × String)

/-- A command answers what the tool says, and writes what it says to its output. -/
def toolCommand : CommandSem
  | argv, none, d, r, d' => r = .ok (tool argv).1 ∧ d' = d
  | argv, some p, d, r, d' =>
    (r = .ok (tool argv).1 ∧ WriteStep t.host p (tool argv).2 d (.ok ()) d') ∨ (r = osError ∧ d' = d)

/-- Write a file, if its directory exists. -/
def FiniteDisk.write? (s : FiniteDisk) (p : PurePath) (data : String) : Option FiniteDisk :=
  match p.parts.reverse with
  | [] => none
  | c :: rest =>
    if h : Direct p ∧ s.entry rest.reverse = some .dir ∧ s.entry (rest.reverse ++ [c]) ≠ some .dir then
      some (s.putFile rest.reverse c data h.2.1 h.2.2)
    else none

/-- An operation carried out. -/
def FileOp.exec : (o : FileOp) → FiniteDisk → o.Ans × FiniteDisk
  | exist p, s => (.ok (s.entry (t.host.real p)).isSome, s)
  | isFile p, s => (.ok (match s.entry (t.host.real p) with
    | some (.file _) => true
    | _ => false), s)
  | isDir p, s => (.ok (s.entry (t.host.real p) = some .dir), s)
  | size p, s => (match s.entry (t.host.real p) with
    | some (.file data) => .ok data.utf8ByteSize
    | _ => osError, s)
  | iterdir p, s => (.ok (s.list (t.host.real p)), s)
  | readText p, s => (match s.entry (t.host.real p) with
    | some (.file data) => .ok data
    | _ => osError, s)
  | mkdirs p, s => if h : Direct p ∧ s.toDisk.Creatable p.parts then (.ok (), s.makeDirs p.parts h.2)
    else (osError, s)
  | write p data, s => match s.write? p data with
    | some s' => (.ok (), s')
    | none => (osError, s)
  | command argv none _, s => (.ok (tool argv).1, s)
  | command argv (some p) _, s => match s.write? p (tool argv).2 with
    | some s' => (.ok (tool argv).1, s')
    | none => (osError, s)

variable {t tool}

theorem FiniteDisk.write?_step {s s' : FiniteDisk} {p : PurePath} {data : String}
    (h : s.write? p data = some s') : WriteStep t.host p data s.toDisk (.ok ()) s'.toDisk := by
  unfold FiniteDisk.write? at h
  split at h
  · cases h
  · rename_i c rest hrev
    split_ifs at h with hc
    cases h
    have hparts : p.parts = rest.reverse ++ [c] := by
      rw [← List.reverse_cons, ← hrev, List.reverse_reverse]
    have hreal : t.host.real p = rest.reverse ++ [c] := by
      rw [(t.canonical hc.1.1 hc.1.2).real_self, hparts]
    refine ⟨fun q hq => if_neg (hreal ▸ hq), Or.inr ?_, fun _ => ?_⟩
    · rw [hreal]
      exact ⟨hc.2.2, data, if_pos rfl⟩
    · rw [hreal]
      exact if_pos rfl

/-- **What is carried out is what an operation may answer and do.** -/
theorem exec_step (o : FileOp) (s : FiniteDisk) :
    o.Step t.host (toolCommand t tool) s.toDisk (o.exec t tool s).1 (o.exec t tool s).2.toDisk := by
  cases o with
  | exist p => exact ⟨rfl, fun b hb => (Except.ok.inj hb).symm⟩
  | isFile p =>
    refine ⟨rfl, fun b hb => ?_⟩
    obtain rfl := Except.ok.inj hb
    cases hentry : s.entry (t.host.real p) with
    | none => simp
    | some e => cases e <;> simp
  | isDir p =>
    refine ⟨rfl, fun b hb => ?_⟩
    obtain rfl := Except.ok.inj hb
    exact decide_eq_true_iff
  | size p =>
    refine ⟨rfl, fun n hn data hdata => ?_⟩
    simp only [FileOp.exec, hdata] at hn
    exact (Except.ok.inj hn).symm
  | iterdir p =>
    refine ⟨rfl, fun names hnames c => ?_⟩
    obtain rfl := Except.ok.inj hnames
    exact s.mem_list _ c
  | readText p =>
    refine ⟨rfl, fun data hdata => ?_⟩
    cases hentry : s.entry (t.host.real p) with
    | none => simp [FileOp.exec, hentry, osError] at hdata
    | some e =>
      cases e with
      | dir => simp [FileOp.exec, hentry, osError] at hdata
      | file data' =>
        simp only [FileOp.exec, hentry] at hdata
        rw [Except.ok.inj hdata]
  | mkdirs p =>
    show MkdirsStep t.host p s.toDisk _ _
    unfold FileOp.exec
    dsimp only
    split_ifs with hp
    · exact addDirs_step (t.canonical hp.1.1 hp.1.2) hp.2
    · exact ⟨fun q => Or.inl rfl, fun h => by cases h⟩
  | write p data =>
    show WriteStep t.host p data s.toDisk _ _
    unfold FileOp.exec
    dsimp only
    cases hw : s.write? p data with
    | none => exact ⟨fun q _ => rfl, Or.inl rfl, fun h => by cases h⟩
    | some s' => exact FiniteDisk.write?_step hw
  | command argv output timeout =>
    cases output with
    | none => exact ⟨rfl, rfl⟩
    | some p =>
      show toolCommand t tool argv (some p) s.toDisk _ _
      unfold FileOp.exec
      dsimp only
      cases hw : s.write? p (tool argv).2 with
      | none => exact Or.inr ⟨rfl, rfl⟩
      | some s' => exact Or.inl ⟨rfl, FiniteDisk.write?_step hw⟩

/-- The disk with its root only. -/
def FiniteDisk.empty : FiniteDisk where
  toDisk := Disk.empty
  names := []
  named p hp c hc := by
    by_cases he : p = []
    · rw [he] at hc
      cases hc
    · have hnone : Disk.empty.entry p = none := if_neg he
      rw [hnone] at hp
      cases hp

/-- The disk that holds the shared root only. -/
def sampleRootDisk : FiniteDisk := FiniteDisk.empty.makeDirs ["media"] (by decide)

/-- Every command succeeds. -/
def sampleTool (_ : List String) : Completed × String := (.exited 0 "\x7b\x7d" "", "\x7b\x7d")

end MediaOrchard
