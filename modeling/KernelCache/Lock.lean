/-
**Locks between processes.**

A lock is a directory: making it takes the lock, because of all processes that try only one makes
it, and removing it gives the lock back.  A process notes the locks that it has taken, and gives
back what is left of them when it is done.

Main definitions:

* `LockTable`, `LockTable.path` — the locks below a root;
* `LockTable.acquire`, `LockTable.release`, `LockTable.releaseAll` — taking and giving back;
* `LockTable.isLocked`, `LockTable.wait`, `LockTable.waitAtMost` — watching a lock;
* `LockTable.entries` — the locks that are taken, by whomever.
-/

import KernelCache.Store

set_option relaxedAutoImplicit false
set_option autoImplicit false

namespace KernelCache

/-- The directory of the locks below a root. -/
structure LockTable where
  directory : Path
  deriving DecidableEq, Repr

namespace LockTable

/-- The locks below a root. -/
def atRoot (root : Path) : LockTable := ⟨root.child "locks"⟩

/-- The name of a lock. -/
def name (d : Digest) (depth : Nat) : String := d.toText ++ "_" ++ Decimal.text depth

/-- The directory of a lock. -/
def path (t : LockTable) (d : Digest) (depth : Nat) : Path := t.directory.child (name d depth)

/-- Refuses depths that locks do not have. -/
def checkDepth (depth : Nat) : FileTask CacheError Unit :=
  if depth ≤ maxLockDepth then return else throw (.lockDepth depth)

/-! ### Taking and giving back -/

/-- Tries to take a lock; `false` says that someone has it. -/
def acquire (t : LockTable) (d : Digest) (depth : Nat) : FileTask CacheError Bool := do
  checkDepth depth
  Store.attempt t.directory (makeDirectories t.directory)
  match ← Ask.makeDirectory (t.path d depth) with
  | .ok () =>
    Ask.hold (t.path d depth)
    return true
  | .error .alreadyExists => return false
  | .error e => throw (.io (t.path d depth) e)

/-- Strikes a lock from the notes and removes its directory. -/
def releasePath (lock : Path) : FileTask CacheError Unit := do
  Ask.letGo lock
  match ← Ask.removeDirectory lock with
  | .ok () | .error .notFound => return
  | .error e => throw (.io lock e)

/-- Gives a lock back.  A lock that is not taken may be given back, too. -/
def release (t : LockTable) (d : Digest) (depth : Nat) : FileTask CacheError Unit := do
  checkDepth depth
  releasePath (t.path d depth)

/-- Gives a lock back where a failure to do so is of no consequence. -/
def releaseQuietly (t : LockTable) (d : Digest) (depth : Nat) : FileProgram Unit := do
  let _ ← (t.release d depth).run

/-- Strikes locks from the notes. -/
def forget : List Path → FileProgram Unit
  | [] => return
  | lock :: rest => do
    Ask.letGo lock
    forget rest

/-- Gives locks back one by one, and counts those for which this worked. -/
def releaseEach : List Path → FileProgram Nat
  | [] => return 0
  | lock :: rest => do
    match ← (releasePath lock).run with
    | .ok () => return (← releaseEach rest) + 1
    | .error _ => releaseEach rest

/-- Gives back every lock in the notes, which are empty afterwards. -/
def releaseAll : FileProgram Nat := do
  let locks ← Ask.held
  forget locks
  releaseEach locks

/-! ### Watching -/

/-- Whether the directory of a lock is there. -/
def present (lock : Path) : FileTask CacheError Bool := do
  match ← Ask.look lock with
  | .ok _ => return true
  | .error .notFound => return false
  | .error e => throw (.io lock e)

/-- Whether a lock is taken, by whomever. -/
def isLocked (t : LockTable) (d : Digest) (depth : Nat) : FileTask CacheError Bool := do
  checkDepth depth
  present (t.path d depth)

/-- The first and the longest pause between two looks at a lock. -/
def firstPause : Nat := Duration.millisecond

@[inherit_doc firstPause] def longestPause : Nat := 32 * Duration.millisecond

/-- The pause after a pause. -/
def nextPause (pause : Nat) : Nat := min (pause * 2) longestPause

/-- Looks at a lock until it is gone, `polls` times at most. -/
def waitLoop (lock : Path) : (pause polls : Nat) → FileTask CacheError Unit
  | _, 0 => Task.stalled
  | pause, polls + 1 => do
    if ← present lock then
      Ask.sleep pause
      waitLoop lock (nextPause pause) polls

/-- Waits until a lock is gone. -/
def wait (t : LockTable) (d : Digest) (depth polls : Nat) : FileTask CacheError Unit := do
  checkDepth depth
  waitLoop (t.path d depth) firstPause polls

/-- Looks at a lock until it is gone or the time since `start` is up. -/
def waitAtMostLoop (lock : Path) (start timeout : Nat) :
    (pause polls : Nat) → FileTask CacheError Unit
  | _, 0 => Task.stalled
  | pause, polls + 1 => do
    if ← present lock then
      let waited := (← Ask.now) - start
      if timeout ≤ waited then throw (.lockTimeout lock waited)
      Ask.sleep (min pause (timeout - waited))
      waitAtMostLoop lock start timeout (nextPause pause) polls

/-- Waits until a lock is gone, for a given time at most. -/
def waitAtMost (t : LockTable) (d : Digest) (depth timeout polls : Nat) :
    FileTask CacheError Unit := do
  checkDepth depth
  let start ← Ask.now
  waitAtMostLoop (t.path d depth) start timeout firstPause polls

/-! ### Listing -/

/-- A lock that is taken. -/
structure Entry where
  digest : Digest
  depth : Nat
  path : Path
  deriving DecidableEq, Repr

/-- The digest and the depth that the name of a lock gives. -/
def readName? (name : Bytes) : Option (Digest × Nat) := do
  let cs ← Utf8.decode? name
  let depthText := (cs.reverse.takeWhile (· ≠ '_')).reverse
  let rest := cs.take (cs.length - depthText.length)
  match rest.getLast? with
  | some _ =>
    let d ← Digest.parse? (String.ofList rest.dropLast)
    let depth ← Decimal.unsigned? 255 depthText
    return (d, depth)
  | none => none

/-- The locks that directory entries stand for, in the order of their names. -/
def ofNames (directory : Path) (names : List Bytes) : List Entry :=
  (names.mergeSort fun a b => decide (a ≤ b)).filterMap fun name =>
    (readName? name).map fun (d, depth) => ⟨d, depth, directory.join ⟨name⟩⟩

/-- The locks that are taken, by whomever, in the order of their paths. -/
def entries (t : LockTable) : FileTask CacheError (List Entry) := do
  match ← Ask.names t.directory with
  | .ok names => return ofNames t.directory names
  | .error .notFound => return []
  | .error e => throw (.io t.directory e)

end LockTable

end KernelCache
