/-
  Hosts and disks: what `pathlib` and `subprocess` do for the Worker.

  `Host` is how a host reads paths: `real` is `os.path.realpath` and `home` what
  `os.path.expanduser` makes of `~` and `~user`.  A `Disk` is the tree of real
  paths.  The operations of the code are `FileOp`; what they may answer and do
  is the relation `FileOp.Step`, in which any operation may fail with an
  `OSError`.  What a command does is a parameter.
-/
import MediaOrchard.Shared.Access
import MediaOrchard.Lib.Posix
import MediaOrchard.Lib.Effects

namespace MediaOrchard

open Posix Effects

/-! ## Hosts -/

/-- How a host reads paths. -/
structure Host where
  real : PurePath → ResolvedPath
  home : String → PurePath
  real_clean : ∀ p, ∀ c ∈ real p, Clean c
  real_above : ∀ p q, q.absolute → q.parts <+: real p → real q = q.parts

namespace Host

/-- `path.expanduser()` -/
def expanduser (h : Host) (p : PurePath) : PurePath :=
  match hp : p.parts with
  | [] => p
  | c :: rest =>
    if p.absolute = false ∧ c.toList.head? = some '~' then
      (h.home c).append ⟨false, rest, fun d hd => p.valid d (hp ▸ List.mem_cons_of_mem c hd)⟩
    else p

/-- `Path(s).expanduser().resolve(strict=False)` -/
def resolve (h : Host) (s : String) : ResolvedPath := h.real (h.expanduser (PurePath.ofString s))

/-- `path.expanduser().resolve(strict=False)`, as a path -/
def resolvePath (h : Host) (path : PurePath) : PurePath where
  absolute := true
  parts := h.real (h.expanduser path)
  valid c hc := (h.real_clean _ c hc).toSegment

end Host

/-! ## Disks -/

/-- What a path leads to. -/
inductive Entry where
  | dir
  | file (data : String)
  deriving DecidableEq, Repr

/-- The tree of real paths: everything lies in a directory. -/
@[ext]
structure Disk where
  entry : ResolvedPath → Option Entry
  root : entry [] = some .dir
  closed : ∀ p c, (entry (p ++ [c])).isSome → entry p = some .dir

/-- A disk that holds nothing but its root. -/
def Disk.empty : Disk where
  entry p := if p = [] then some .dir else none
  root := rfl
  closed p c h := by simp at h

/-- The file system that a host finds on a disk. -/
def Host.fileSystem (h : Host) (d : Disk) : FileSystem where
  resolve := h.resolve
  pathExists p := (d.entry p).isSome
  isDir p := d.entry p = some .dir

/-- `resolve_allowlisted_path` on a host; it resolves paths and does not look at
    what exists. -/
def Host.resolveAllowlistedPath (h : Host) (path : String) (allowedRoots : List String) :
    Except PathSecurityError ResolvedPath :=
  MediaOrchard.resolveAllowlistedPath (h.fileSystem Disk.empty) path allowedRoots

/-- `build_job_output_dir` on a host, with the paths as `pathlib` builds them; the
    output root is `Path(output_root)`. -/
def Host.buildJobOutputDir (h : Host) (outputRoot : PurePath) (jobId : String) :
    Except PathSecurityError PurePath :=
  if jobId = "" ∨ jobId = "." ∨ jobId = ".." then
    .error ⟨"job_id must be a non-empty path segment"⟩
  else if (PurePath.ofString jobId).name ≠ jobId ∨ '/' ∈ jobId.toList ∨ '\\' ∈ jobId.toList then
    .error ⟨"job_id must not contain path separators"⟩
  else .ok ((h.resolvePath outputRoot).join jobId)

/-! ## Operations -/

/-- The classes of the exceptions met. -/
inductive ExnKind where
  | toolExecutionError | realMediaSmokeError | runtimeError | attributeError | typeError
  | valueError | overflowError | osError
  deriving DecidableEq, Repr

/-- An exception, with its text. -/
structure Exn where
  kind : ExnKind
  text : String
  deriving DecidableEq, Repr

/-- `type(v).__name__` -/
def Json.typeName : Json → String
  | null => "NoneType"
  | bool _ => "bool"
  | int _ => "int"
  | float _ => "float"
  | str _ => "str"
  | arr _ => "list"
  | obj _ => "dict"

/-- The `AttributeError` of `v.attr`. -/
def attributeError (v : Json) (attr : String) : Exn :=
  ⟨.attributeError, "'" ++ v.typeName ++ "' object has no attribute '" ++ attr ++ "'"⟩

/-- `v.get(key)`; only a dict has the method. -/
def Json.get (v : Json) (key : String) : Except Exn (Option Json) :=
  match v with
  | obj kvs => .ok (Dict.get? kvs key)
  | _ => .error (attributeError v "get")

/-- An exception of the operating system's interface: an `OSError`, or a
    `ValueError` such as an undecodable text or a NUL in a path. -/
structure SysError where
  isOSError : Bool
  text : String
  deriving DecidableEq, Repr

def SysError.exn (e : SysError) : Exn := ⟨if e.isOSError then .osError else .valueError, e.text⟩

/-- An output stream of `TimeoutExpired`; bytes are given by their decoding. -/
inductive Stream where
  | none
  | bytes (decoded : String)
  | text (s : String)

/-- `_normalize_timeout_stream`, `_stream_to_text` -/
def Stream.toText : Stream → String
  | none => ""
  | bytes decoded => decoded
  | text s => s

/-- What `subprocess.run` returns, or the `TimeoutExpired` it raises. -/
inductive Completed where
  | exited (returncode : ℤ) (stdout stderr : String)
  | timedOut (timeout : ℤ) (output stderr : Stream)

/-- The operations on the disk.  `output` is the path that a command is told to
    write; in the source only the argv says it. -/
inductive FileOp where
  | exist (p : PurePath)
  | isFile (p : PurePath)
  | isDir (p : PurePath)
  | size (p : PurePath)
  | iterdir (p : PurePath)
  | readText (p : PurePath)
  | mkdirs (p : PurePath)
  | write (p : PurePath) (data : String)
  | command (argv : List String) (output : Option PurePath) (timeout : ℤ)

/-- The answers to an operation. -/
@[reducible] def FileOp.Ans : FileOp → Type
  | exist _ | isFile _ | isDir _ => Except SysError Bool
  | size _ => Except SysError ℕ
  | iterdir _ => Except SysError (List String)
  | readText _ => Except SysError String
  | mkdirs _ | write _ _ => Except SysError Unit
  | command _ _ _ => Except SysError Completed

/-- Programs on a disk. -/
abbrev FileProg := Eff FileOp FileOp.Ans Exn

namespace FileProg

/-- Raise the error of an operation. -/
def raise {α : Type} : Except SysError α → FileProg α
  | .ok a => .ret a
  | .error e => .throw e.exn

/-- Run `p` only if `c` holds. -/
def onlyIf (c : Prop) [Decidable c] (p : FileProg Unit) : FileProg Unit := if c then p else .ret ()

/-- `path.exists()` -/
def exist (p : PurePath) : FileProg Bool := .op (.exist p) raise

/-- `path.is_file()` -/
def isFile (p : PurePath) : FileProg Bool := .op (.isFile p) raise

/-- `path.is_dir()` -/
def isDir (p : PurePath) : FileProg Bool := .op (.isDir p) raise

/-- `path.stat().st_size` -/
def size (p : PurePath) : FileProg ℕ := .op (.size p) raise

/-- `path.iterdir()`, as the names it yields -/
def iterdir (p : PurePath) : FileProg (List String) := .op (.iterdir p) raise

/-- `path.read_text()` -/
def readText (p : PurePath) : FileProg String := .op (.readText p) raise

/-- `path.mkdir(parents=True, exist_ok=True)` -/
def mkdirs (p : PurePath) : FileProg Unit := .op (.mkdirs p) raise

/-- `path.write_text(data)`, `path.write_bytes(data)` -/
def write (p : PurePath) (data : String) : FileProg Unit := .op (.write p data) raise

/-- `subprocess.run(argv, shell=False, capture_output=True, text=True, check=False, timeout=timeout)` -/
def command (argv : List String) (output : Option PurePath) (timeout : ℤ) : FileProg Completed :=
  .op (.command argv output timeout) raise

end FileProg

/-! ## Semantics -/

/-- `mkdir(parents=True, exist_ok=True)`: missing directories among the path and
    its parents are created; in case of an error, some of them may be. -/
structure MkdirsStep (h : Host) (p : PurePath) (d : Disk) (r : Except SysError Unit) (d' : Disk) :
    Prop where
  created : ∀ q, d'.entry q = d.entry q ∨
    (d.entry q = none ∧ d'.entry q = some .dir ∧ ∃ a : PurePath, a.Above p ∧ h.real a = q)
  done : r = .ok () → d'.entry (h.real p) = some .dir

/-- `write_text`: the file is replaced; in case of an error, it may be. -/
structure WriteStep (h : Host) (p : PurePath) (data : String) (d : Disk) (r : Except SysError Unit)
    (d' : Disk) : Prop where
  other : ∀ q, q ≠ h.real p → d'.entry q = d.entry q
  here : d'.entry (h.real p) = d.entry (h.real p) ∨
    (d.entry (h.real p) ≠ some .dir ∧ ∃ t, d'.entry (h.real p) = some (.file t))
  done : r = .ok () → d'.entry (h.real p) = some (.file data)

/-- What a command may answer and do to the disk. -/
abbrev CommandSem := List String → Option PurePath → Disk → Except SysError Completed → Disk → Prop

/-- An operation that only reads: a successful answer satisfies `Q`. -/
def ReadStep {α : Type} (Q : α → Prop) (d : Disk) (r : Except SysError α) (d' : Disk) : Prop :=
  d' = d ∧ ∀ a, r = .ok a → Q a

/-- What an operation may answer and do to a disk. -/
def FileOp.Step (h : Host) (cmd : CommandSem) : Sem FileOp FileOp.Ans Disk
  | .exist p, d, r, d' => ReadStep (fun b => b = (d.entry (h.real p)).isSome) d r d'
  | .isFile p, d, r, d' => ReadStep (fun b => b = true ↔ ∃ t, d.entry (h.real p) = some (.file t)) d r d'
  | .isDir p, d, r, d' => ReadStep (fun b => b = true ↔ d.entry (h.real p) = some .dir) d r d'
  | .size p, d, r, d' =>
    ReadStep (fun n => ∀ t, d.entry (h.real p) = some (.file t) → n = t.utf8ByteSize) d r d'
  | .iterdir p, d, r, d' =>
    ReadStep (fun names => ∀ c, c ∈ names ↔ (d.entry (h.real p ++ [c])).isSome) d r d'
  | .readText p, d, r, d' => ReadStep (fun t => d.entry (h.real p) = some (.file t)) d r d'
  | .mkdirs p, d, r, d' => MkdirsStep h p d r d'
  | .write p data, d, r, d' => WriteStep h p data d r d'
  | .command argv output _, d, r, d' => cmd argv output d r d'

end MediaOrchard
