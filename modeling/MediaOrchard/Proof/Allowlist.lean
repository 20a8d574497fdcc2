/-
  Path policy: allowlist confinement and job directories.

  * `FileSystem.Canonical`: `resolve` yields canonical paths, and the text of a
    canonical path leads back to it;
  * `host_canonical`: a host canonicalises; `LinkFree.host`: so does lexical
    resolution, on a tree without symbolic links;
  * `resolveAllowlistedPath_ok`: a path is accepted iff the components of a root
    are a prefix of its own;
  * `ConfinesExactly`, `allowlist_exact`: what follows for every path and every list
    of roots;
  * `SafeJobId`: the ids that name one component; `jobId_tests`: they are those that
    the tests of the source let through;
  * `job_dirs_direct`: their directories are direct children of the output root.
-/
import MediaOrchard.Shared.Storage

namespace MediaOrchard

open Posix

/-! ## Canonical resolution -/

/-- `Path(p).expanduser().resolve(strict=False)` is a canonicalisation. -/
structure FileSystem.Canonical (fs : FileSystem) : Prop where
  clean : ∀ s, ∀ c ∈ fs.resolve s, Clean c
  stable : ∀ s, fs.resolve (fs.resolve s).str = fs.resolve s

theorem Host.expanduser_absolute (h : Host) {p : PurePath} (hp : p.absolute) :
    h.expanduser p = p := by
  unfold Host.expanduser
  split
  · rfl
  · rw [if_neg]
    rintro ⟨hf, -⟩
    rw [hp] at hf
    cases hf

theorem ResolvedPath.str_eq (p : ResolvedPath) : p.str = render p := rfl

/-- The path that a resolved path's text leads to is itself. -/
theorem Host.real_ofString (h : Host) {p : PurePath} {q : ResolvedPath} (hq : q <+: h.real p) :
    h.real (PurePath.ofString q.str) = q := by
  have hclean : ∀ c ∈ q, Segment c := fun c hc => (h.real_clean p c (hq.subset hc)).toSegment
  obtain ⟨habs, hparts⟩ := PurePath.ofString_render hclean
  rw [ResolvedPath.str_eq, h.real_above p _ habs (by rw [hparts]; exact hq), hparts]

theorem Host.resolve_str (h : Host) {p : PurePath} {q : ResolvedPath} (hq : q <+: h.real p) :
    h.resolve q.str = q := by
  have hclean : ∀ c ∈ q, Segment c := fun c hc => (h.real_clean p c (hq.subset hc)).toSegment
  rw [Host.resolve, ResolvedPath.str_eq,
    h.expanduser_absolute (PurePath.ofString_render hclean).1, ← ResolvedPath.str_eq,
    h.real_ofString hq]

/-- A host canonicalises. -/
theorem host_canonical (h : Host) (d : Disk) : (h.fileSystem d).Canonical where
  clean _ := h.real_clean _
  stable _ := h.resolve_str (List.prefix_refl _)

/-- A tree without symbolic links, seen from a working directory; `home` are the
    home directories, under `~` and `~user`. -/
structure LinkFree where
  cwd : ResolvedPath
  home : String → PurePath
  cwd_clean : ∀ c ∈ cwd, Clean c

/-- On a tree without symbolic links resolution is lexical. -/
def LinkFree.host (t : LinkFree) : Host where
  real p := normalize (if p.absolute then [] else t.cwd) p.parts
  home := t.home
  real_clean p := by
    refine normalize_clean (fun c hc => ?_) p.valid
    split_ifs at hc
    exacts [absurd hc List.not_mem_nil, t.cwd_clean c hc]
  real_above p q habs hq := by
    rw [if_pos habs, normalize_down, List.nil_append]
    intro c hc
    refine (normalize_clean (fun d hd => ?_) p.valid c (hq.subset hc)).ne_dotdot
    split_ifs at hd
    exacts [absurd hd List.not_mem_nil, t.cwd_clean d hd]

/-- A host without symbolic links, with one home directory. -/
def plainHost : Host := LinkFree.host ⟨[], fun _ => PurePath.ofString "/home/w", by simp⟩

/-! ## The membership test -/

theorem mem_parents {root p : ResolvedPath} : root ∈ p.parents ↔ root <+: p ∧ root ≠ p := by
  unfold ResolvedPath.parents
  induction p using List.reverseRecOn with
  | nil => simp
  | append_singleton p c ih =>
    have hinits : (p ++ [c]).inits = p.inits ++ [p ++ [c]] := by simp [List.inits_append]
    rw [hinits, List.dropLast_concat, List.mem_inits, List.prefix_concat_iff]
    constructor
    · intro h
      refine ⟨Or.inr h, ?_⟩
      rintro rfl
      have hlen := h.length_le
      rw [List.length_append, List.length_singleton] at hlen
      omega
    · rintro ⟨h | h, hne⟩
      exacts [absurd h hne, h]

/-- The test of the source, equality or membership in `candidate.parents`, is the
    prefix order on components. -/
theorem within_iff {root p : ResolvedPath} : p = root ∨ root ∈ p.parents ↔ root <+: p := by
  rw [mem_parents]
  constructor
  · rintro (rfl | h)
    exacts [List.prefix_refl p, h.1]
  · intro h
    by_cases he : p = root
    exacts [Or.inl he, Or.inr ⟨h, Ne.symm he⟩]

variable {fs : FileSystem} {path : String} {roots roots' : List String} {p : ResolvedPath}

/-- **Acceptance**: the canonical path, if a root's components are a prefix of it. -/
theorem resolveAllowlistedPath_ok : resolveAllowlistedPath fs path roots = .ok p ↔
    p = fs.resolve path ∧ ∃ root ∈ roots, fs.resolve root <+: fs.resolve path := by
  have hany : ((roots.map fs.resolve).any fun root => decide (fs.resolve path = root ∨
      root ∈ (fs.resolve path).parents)) = true ↔
      ∃ root ∈ roots, fs.resolve root <+: fs.resolve path := by
    simp only [List.any_map, List.any_eq_true, Function.comp_apply, decide_eq_true_eq, within_iff]
  unfold resolveAllowlistedPath
  dsimp only
  split_ifs with hnil h
  · obtain rfl : roots = [] := List.map_eq_nil_iff.1 hnil
    simp
  · rw [Except.ok.injEq, eq_comm]
    exact (and_iff_left (hany.1 h)).symm
  · rw [hany] at h
    constructor
    · intro he
      cases he
    · rintro ⟨-, hroot⟩
      exact absurd hroot h

/-- The result depends on the roots as a set. -/
theorem resolveAllowlistedPath_congr (h : ∀ root, root ∈ roots ↔ root ∈ roots') :
    resolveAllowlistedPath fs path roots = resolveAllowlistedPath fs path roots' := by
  have hnil : roots.map fs.resolve = [] ↔ roots'.map fs.resolve = [] := by
    rw [List.map_eq_nil_iff, List.map_eq_nil_iff, List.eq_nil_iff_forall_not_mem,
      List.eq_nil_iff_forall_not_mem]
    exact forall_congr' fun root => not_congr (h root)
  have hany : ∀ f : ResolvedPath → Bool, (roots.map fs.resolve).any f =
      (roots'.map fs.resolve).any f := by
    intro f
    rw [Bool.eq_iff_iff, List.any_map, List.any_map, List.any_eq_true, List.any_eq_true]
    exact exists_congr fun root => and_congr_left' (h root)
  unfold resolveAllowlistedPath
  simp only [hnil, hany]

/-! ## Confinement -/

/-- The allowlist confines exactly. -/
structure ConfinesExactly (fs : FileSystem) : Prop where
  accepts : ∀ path roots p, resolveAllowlistedPath fs path roots = .ok p ↔
    p = fs.resolve path ∧ ∃ root ∈ roots, fs.resolve root <+: fs.resolve path
  rejects : ∀ path roots, (∀ root ∈ roots, ¬ fs.resolve root <+: fs.resolve path) →
    ∃ e, resolveAllowlistedPath fs path roots = .error e
  noDotdot : ∀ path roots p, resolveAllowlistedPath fs path roots = .ok p →
    (∀ c ∈ p, Clean c) ∧ ∃ root ∈ roots, fs.resolve root <+: p
  sibling : ∀ path root dir name name' rest, fs.resolve root = dir ++ [name] →
    fs.resolve path = dir ++ name' :: rest → name' ≠ name →
    ∃ e, resolveAllowlistedPath fs path [root] = .error e
  idempotent : ∀ path roots p, resolveAllowlistedPath fs path roots = .ok p →
    resolveAllowlistedPath fs p.str roots = .ok p
  unordered : ∀ path roots roots', (∀ root, root ∈ roots ↔ root ∈ roots') →
    resolveAllowlistedPath fs path roots = resolveAllowlistedPath fs path roots'
  monotone : ∀ path roots roots' p, roots ⊆ roots' →
    resolveAllowlistedPath fs path roots = .ok p → resolveAllowlistedPath fs path roots' = .ok p

theorem confinesExactly (hfs : fs.Canonical) : ConfinesExactly fs := by
  have hrejects : ∀ path roots, (∀ root ∈ roots, ¬ fs.resolve root <+: fs.resolve path) →
      ∃ e, resolveAllowlistedPath fs path roots = .error e := by
    intro path roots h
    cases hr : resolveAllowlistedPath fs path roots with
    | error e => exact ⟨e, rfl⟩
    | ok p =>
      obtain ⟨-, root, hmem, hroot⟩ := resolveAllowlistedPath_ok.1 hr
      exact absurd hroot (h root hmem)
  constructor
  case accepts => exact fun path roots p => resolveAllowlistedPath_ok
  case rejects => exact hrejects
  case noDotdot =>
    intro path roots p h
    obtain ⟨rfl, hroot⟩ := resolveAllowlistedPath_ok.1 h
    exact ⟨hfs.clean path, hroot⟩
  case sibling =>
    intro path root dir name name' rest hroot hpath hne
    refine hrejects path [root] fun r hr => ?_
    rw [List.mem_singleton.1 hr, hroot, hpath, List.prefix_append_right_inj,
      List.cons_prefix_cons]
    exact fun h => hne h.1.symm
  case idempotent =>
    intro path roots p h
    obtain ⟨rfl, root, hmem, hroot⟩ := resolveAllowlistedPath_ok.1 h
    refine resolveAllowlistedPath_ok.2 ⟨(hfs.stable path).symm, root, hmem, ?_⟩
    rw [hfs.stable]
    exact hroot
  case unordered => exact fun path roots roots' h => resolveAllowlistedPath_congr h
  case monotone =>
    intro path roots roots' p hsub h
    obtain ⟨rfl, root, hmem, hroot⟩ := resolveAllowlistedPath_ok.1 h
    exact resolveAllowlistedPath_ok.2 ⟨rfl, root, hsub hmem, hroot⟩

/-- **Allowlist confinement is exact**, under every canonicalisation, and so on
    every tree without symbolic links. -/
theorem allowlist_exact : (∀ fs : FileSystem, fs.Canonical → ConfinesExactly fs) ∧
    ∀ (t : LinkFree) (d : Disk), ConfinesExactly (t.host.fileSystem d) :=
  ⟨fun _ hfs => confinesExactly hfs, fun t d => confinesExactly (host_canonical t.host d)⟩

/-- A tree without links, seen from `/media/job`. -/
def sampleTree : LinkFree where
  cwd := ["media", "job"]
  home _ := .ofString "/home"
  cwd_clean := by decide

/-- Out of the working directory and back in is accepted, a sibling of the root is not. -/
theorem allowlist_exact_sample :
    let fs := sampleTree.host.fileSystem Disk.empty
    resolveAllowlistedPath fs "../../../media//job/./a.mp4" ["/srv/../media"] =
        .ok ["media", "job", "a.mp4"] ∧
      ∃ e, resolveAllowlistedPath fs "/media2/a.mp4" ["/media"] = .error e := by
  intro fs
  have hfs := allowlist_exact.1 fs (host_canonical sampleTree.host Disk.empty)
  refine ⟨(hfs.accepts _ _ _).2 ⟨by decide, "/srv/../media", by simp, by decide⟩, ?_⟩
  exact hfs.sibling "/media2/a.mp4" "/media" [] "media" "media2" ["a.mp4"] (by decide) (by decide)
    (by decide)

/-! ## Job directories -/

/-- An id that is one component of a path and has no backslash. -/
structure SafeJobId (jobId : String) : Prop extends Clean jobId where
  no_backslash : '\\' ∉ jobId.toList

theorem safeJobId_iff {jobId : String} : SafeJobId jobId ↔
    jobId ≠ "" ∧ jobId ≠ "." ∧ jobId ≠ ".." ∧ '/' ∉ jobId.toList ∧ '\\' ∉ jobId.toList :=
  ⟨fun h => ⟨h.ne_empty, h.ne_dot, h.ne_dotdot, h.no_slash, h.no_backslash⟩,
    fun ⟨hempty, hdot, hdotdot, hslash, hback⟩ => ⟨⟨⟨hempty, hdot, hslash⟩, hdotdot⟩, hback⟩⟩

/-- The tests of the source together: the empty id, which is its own name, fails the first
    one, and `..`, which is a segment, as well. -/
theorem jobId_tests {jobId : String} : SafeJobId jobId ↔
    ¬ (jobId = "" ∨ jobId = "." ∨ jobId = "..") ∧
      ¬ ((PurePath.ofString jobId).name ≠ jobId ∨ '/' ∈ jobId.toList ∨ '\\' ∈ jobId.toList) := by
  constructor
  · intro h
    refine ⟨?_, ?_⟩
    · rintro (rfl | rfl | rfl)
      exacts [h.ne_empty rfl, h.ne_dot rfl, h.ne_dotdot rfl]
    · rintro (hname | hslash | hback)
      · exact hname ((PurePath.name_ofString jobId).2 (Or.inr h.toSegment))
      · exact h.no_slash hslash
      · exact h.no_backslash hback
  · rintro ⟨hset, htests⟩
    simp only [not_or, not_not] at hset htests
    obtain ⟨hempty, -, hdotdot⟩ := hset
    obtain ⟨hname, -, hback⟩ := htests
    have hsegment : Segment jobId := ((PurePath.name_ofString jobId).1 hname).resolve_left hempty
    exact ⟨⟨hsegment, hdotdot⟩, hback⟩

/-- Both forms of `build_job_output_dir` return iff the id is safe. -/
theorem jobId_accepted {α : Type} {jobId : String} {e e' : PathSecurityError} {a p : α} :
    (if jobId = "" ∨ jobId = "." ∨ jobId = ".." then .error e
      else if (PurePath.ofString jobId).name ≠ jobId ∨ '/' ∈ jobId.toList ∨ '\\' ∈ jobId.toList then
        .error e'
      else .ok a : Except PathSecurityError α) = .ok p ↔ SafeJobId jobId ∧ p = a := by
  rw [jobId_tests]
  split_ifs with hset htests
  · exact ⟨nofun, fun h => absurd hset h.1.1⟩
  · exact ⟨nofun, fun h => absurd htests h.1.2⟩
  · rw [Except.ok.injEq, eq_comm]
    exact (and_iff_right ⟨hset, htests⟩).symm

/-- The directory that the Controller plans, by its components. -/
theorem buildJobOutputDir_ok {outputRoot jobId : String} :
    buildJobOutputDir fs outputRoot jobId = .ok p ↔
      SafeJobId jobId ∧ p = fs.resolve outputRoot ++ [jobId] := jobId_accepted

section
variable {h : Host} {outputRoot p p' : PurePath} {jobId jobId' : String}

theorem Host.buildJobOutputDir_ok :
    h.buildJobOutputDir outputRoot jobId = .ok p ↔
      SafeJobId jobId ∧ p = (h.resolvePath outputRoot).join jobId := jobId_accepted

/-- The Controller plans what the source builds on its host. -/
theorem buildJobOutputDir_host (h : Host) (d : Disk) (outputRoot jobId : String) :
    buildJobOutputDir (h.fileSystem d) outputRoot jobId =
      (h.buildJobOutputDir (PurePath.ofString outputRoot) jobId).map PurePath.parts := by
  have hname : posixName jobId = (PurePath.ofString jobId).name := rfl
  unfold buildJobOutputDir Host.buildJobOutputDir
  rw [hname]
  split_ifs with hset htests
  · rfl
  · rfl
  · have hsafe : SafeJobId jobId := jobId_tests.2 ⟨hset, htests⟩
    have hparts := ((h.resolvePath (PurePath.ofString outputRoot)).join_segment hsafe.toSegment).2
    exact congrArg Except.ok hparts.symm

/-- **A job directory is a child of the canonical output root.** -/
theorem Host.buildJobOutputDir_child (hp : h.buildJobOutputDir outputRoot jobId = .ok p) :
    p.absolute ∧ p.parts = (h.resolvePath outputRoot).parts ++ [jobId] ∧ ∀ c ∈ p.parts, Clean c := by
  obtain ⟨hsafe, rfl⟩ := Host.buildJobOutputDir_ok.1 hp
  obtain ⟨habs, hparts⟩ := (h.resolvePath outputRoot).join_segment hsafe.toSegment
  refine ⟨habs, hparts, fun c hc => ?_⟩
  rw [hparts, List.mem_append, List.mem_singleton] at hc
  rcases hc with hc | rfl
  · exact h.real_clean _ c hc
  · exact hsafe.toClean

/-- **Job directories are apart**: one is above the other only for one id. -/
theorem Host.buildJobOutputDir_above (hp : h.buildJobOutputDir outputRoot jobId = .ok p)
    (hp' : h.buildJobOutputDir outputRoot jobId' = .ok p') : p.Above p' ↔ jobId = jobId' := by
  obtain ⟨hsafe, rfl⟩ := Host.buildJobOutputDir_ok.1 hp
  obtain ⟨hsafe', rfl⟩ := Host.buildJobOutputDir_ok.1 hp'
  exact PurePath.join_above_join _ hsafe.toSegment hsafe'.toSegment

end

/-- **Job directories are direct children** of the output root: exactly the ids that are one
    component without a backslash are accepted, the directory is the canonical root with this one
    component behind it, and the directories of different ids are different, none inside another.
    The Controller plans these directories. -/
theorem job_dirs_direct (h : Host) (outputRoot : PurePath) (jobId : String) :
    ((∃ p, h.buildJobOutputDir outputRoot jobId = .ok p) ↔
      jobId ≠ "" ∧ jobId ≠ "." ∧ jobId ≠ ".." ∧ '/' ∉ jobId.toList ∧ '\\' ∉ jobId.toList) ∧
    (∀ p, h.buildJobOutputDir outputRoot jobId = .ok p →
      (p.absolute ∧ p.parts = (h.resolvePath outputRoot).parts ++ [jobId] ∧
        ∀ c ∈ p.parts, Clean c) ∧
      ∀ jobId' p', h.buildJobOutputDir outputRoot jobId' = .ok p' → jobId ≠ jobId' →
        p ≠ p' ∧ ¬ p.Above p' ∧ ¬ p'.Above p) ∧
    ∀ (d : Disk) (root : String), buildJobOutputDir (h.fileSystem d) root jobId =
      (h.buildJobOutputDir (PurePath.ofString root) jobId).map PurePath.parts := by
  refine ⟨?_, fun p hp => ⟨Host.buildJobOutputDir_child hp, fun jobId' p' hp' hne => ?_⟩,
    fun d root => buildJobOutputDir_host h d root jobId⟩
  · rw [← safeJobId_iff]
    constructor
    · rintro ⟨p, hp⟩
      exact (Host.buildJobOutputDir_ok.1 hp).1
    · exact fun hsafe => ⟨_, Host.buildJobOutputDir_ok.2 ⟨hsafe, rfl⟩⟩
  · have habove : ¬ p.Above p' := fun h => hne ((Host.buildJobOutputDir_above hp hp').1 h)
    refine ⟨?_, habove, fun h => hne ((Host.buildJobOutputDir_above hp' hp).1 h).symm⟩
    rintro rfl
    exact habove ⟨rfl, List.prefix_refl _⟩

/-- The directory of the id `...` is a child, and it is not inside the one of `job_1`. -/
theorem job_dirs_direct_sample : ∃ p p',
    plainHost.buildJobOutputDir (.ofString "~/out/../output") "job_1" = .ok p ∧
    plainHost.buildJobOutputDir (.ofString "~/out/../output") "..." = .ok p' ∧
    p.parts = ["home", "w", "output", "job_1"] ∧ ¬ p.Above p' := by
  obtain ⟨p', hp'⟩ := (job_dirs_direct plainHost (.ofString "~/out/../output") "...").1.2 (by decide)
  obtain ⟨haccepted, hdirs, -⟩ := job_dirs_direct plainHost (.ofString "~/out/../output") "job_1"
  obtain ⟨p, hp⟩ := haccepted.2 (by decide)
  obtain ⟨⟨-, hparts, -⟩, hapart⟩ := hdirs p hp
  exact ⟨p, p', hp, hp', hparts.trans (by decide), (hapart "..." p' hp' (by decide)).2.1⟩

end MediaOrchard
