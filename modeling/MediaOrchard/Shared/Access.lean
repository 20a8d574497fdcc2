/-
  API keys and path policy (`shared/security.py`, `shared/paths.py`), as far as
  the Controller's endpoints use them.

  The digest is a parameter (`Sha256`).  The file system is seen through
  `FileSystem`: `resolve` is `Path(p).expanduser().resolve(strict=False)`, an
  absolute path given by its components below the root.
-/
import MediaOrchard.Shared.Basic
import Mathlib.Data.List.Basic
import Mathlib.Data.List.Infix

namespace MediaOrchard

/-! ## API keys -/

/-- `s.isascii()` -/
def isAscii (s : String) : Bool := s.toList.all fun c => c.toNat < 128

/-- `hashlib.sha256(key.encode("utf-8")).hexdigest()`, which is ASCII -/
structure Sha256 where
  hexdigest : String → String
  isAscii_hexdigest : ∀ key, isAscii (hexdigest key)

instance : CoeFun Sha256 fun _ => String → String := ⟨Sha256.hexdigest⟩

/-- `hash_api_key`: `HASH_PREFIX` and the digest of a non-empty key. -/
def hashApiKey (sha256Hex : Sha256) (rawKey : String) : Except PyError String :=
  if rawKey = "" then .error .valueError else .ok ("sha256:" ++ sha256Hex rawKey)

/-- `hmac.compare_digest` of two texts, which takes only ASCII ones -/
def compareDigest (a b : String) : Except PyError Bool :=
  if isAscii a ∧ isAscii b then .ok (a == b) else .error .typeError

/-- `verify_api_key` -/
def verifyApiKey (sha256Hex : Sha256) (rawKey storedHash : String) : Except PyError Bool :=
  if rawKey = "" ∨ storedHash = "" then .ok false
  else match hashApiKey sha256Hex rawKey with
    | .error _ => .ok false
    | .ok candidate => compareDigest candidate storedHash

theorem isAscii_append (s t : String) : isAscii (s ++ t) = (isAscii s && isAscii t) := by
  rw [isAscii, String.toList_append, List.all_append, isAscii, isAscii]

/-- A stored hash that is ASCII is compared. -/
theorem verifyApiKey_ascii {storedHash : String} (h : isAscii storedHash) (sha256Hex : Sha256)
    (rawKey : String) : verifyApiKey sha256Hex rawKey storedHash =
      .ok (decide (rawKey ≠ "" ∧ storedHash = "sha256:" ++ sha256Hex rawKey)) := by
  have hcandidate : isAscii ("sha256:" ++ sha256Hex rawKey) := by
    rw [isAscii_append, sha256Hex.isAscii_hexdigest]
    decide
  unfold verifyApiKey hashApiKey
  by_cases hkey : rawKey = ""
  · simp [hkey]
  by_cases hhash : storedHash = ""
  · have hne : "" ≠ "sha256:" ++ sha256Hex rawKey := by simp [eq_comm (a := "")]
    rw [if_pos (Or.inr hhash), hhash, decide_eq_false fun h => hne h.2]
  · rw [if_neg (not_or.2 ⟨hkey, hhash⟩), if_neg hkey]
    show compareDigest ("sha256:" ++ sha256Hex rawKey) storedHash = _
    rw [compareDigest, if_pos ⟨hcandidate, h⟩, Bool.beq_eq_decide_eq]
    simp only [hkey, ne_eq, not_false_eq_true, true_and, eq_comm]

/-- Any other makes the comparison raise. -/
theorem verifyApiKey_raises {storedHash : String} (h : isAscii storedHash = false)
    (sha256Hex : Sha256) {rawKey : String} (hkey : rawKey ≠ "") :
    verifyApiKey sha256Hex rawKey storedHash = .error .typeError := by
  have hhash : storedHash ≠ "" := by
    rintro rfl
    cases h
  rw [verifyApiKey, if_neg (not_or.2 ⟨hkey, hhash⟩), hashApiKey, if_neg hkey]
  exact if_neg fun hascii => by simp [h] at hascii

theorem verifyApiKey_empty (sha256Hex : Sha256) (storedHash : String) :
    verifyApiKey sha256Hex "" storedHash = .ok false := if_pos (Or.inl rfl)

/-! ## Paths -/

/-- An absolute canonical path: its components below the root. -/
abbrev ResolvedPath := List String

/-- `str(path)` -/
def ResolvedPath.str (p : ResolvedPath) : String := "/" ++ "/".intercalate p

/-- The file system as a request finds it. -/
structure FileSystem where
  resolve : String → ResolvedPath
  pathExists : ResolvedPath → Bool
  isDir : ResolvedPath → Bool

/-- `PathSecurityError`, with its text. -/
structure PathSecurityError where
  detail : String
  deriving DecidableEq, Repr

/-- `path.parents`: the proper prefixes. -/
def ResolvedPath.parents (p : ResolvedPath) : List ResolvedPath := p.inits.dropLast

/-- `resolve_allowlisted_path` -/
def resolveAllowlistedPath (fs : FileSystem) (path : String) (allowedRoots : List String) :
    Except PathSecurityError ResolvedPath :=
  let candidate := fs.resolve path
  let roots := allowedRoots.map fs.resolve
  if roots = [] then .error ⟨"at least one allowlisted root is required"⟩
  else if roots.any fun root => candidate = root ∨ root ∈ candidate.parents then .ok candidate
  else .error ⟨"path is outside allowlisted roots: " ++ candidate.str⟩

/-- `PurePosixPath(s).name`: the last segment, empty and `.` segments dropped. -/
def posixName (s : String) : String :=
  let parts := (s.toList.splitOn '/').map String.ofList
  ((parts.filter fun part => part ≠ "" ∧ part ≠ ".").getLast?).getD ""

/-- `build_job_output_dir` -/
def buildJobOutputDir (fs : FileSystem) (outputRoot jobId : String) :
    Except PathSecurityError ResolvedPath :=
  if jobId = "" ∨ jobId = "." ∨ jobId = ".." then
    .error ⟨"job_id must be a non-empty path segment"⟩
  else if posixName jobId ≠ jobId ∨ '/' ∈ jobId.toList ∨ '\\' ∈ jobId.toList then
    .error ⟨"job_id must not contain path separators"⟩
  else .ok (fs.resolve outputRoot ++ [jobId])

/-- `SharedRootValidation` -/
structure SharedRootValidation where
  ok : Bool
  reason : String
  workerRoot : ResolvedPath
  controllerRoot : ResolvedPath

/-- `validate_shared_root` -/
def validateSharedRoot (fs : FileSystem) (workerRoot controllerRoot : String) :
    SharedRootValidation :=
  let worker := fs.resolve workerRoot
  let controller := fs.resolve controllerRoot
  if !fs.pathExists worker then ⟨false, "shared_root_missing", worker, controller⟩
  else if !fs.isDir worker then ⟨false, "shared_root_not_directory", worker, controller⟩
  else if worker ≠ controller then ⟨false, "shared_root_mismatch", worker, controller⟩
  else ⟨true, "shared_root_ok", worker, controller⟩

end MediaOrchard
