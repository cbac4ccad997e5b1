import Libnmo.Core.Error
import Libnmo.Lib.Files
import Libnmo.Lib.Machine

/-! The transaction on POSIX. A path is taken as the two parts that `dirname` and
`basename` give, the bytes in a file are those the system has accepted, and
`unlink` succeeds. What the other calls of the system answer is an input. -/
namespace Libnmo.Io
open Core Lib

inductive TxnState
  | idle | active | committed | rolledBack
  deriving DecidableEq, Repr

inductive TxnDurability
  | none | fdatasync | fsync
  deriving DecidableEq, Repr

structure FilePath where
  directory : String
  name : String
  deriving DecidableEq, Repr

/-- `opened` when `fd` is not negative. -/
structure TxnHandle where
  opened : Bool
  finalPath : FilePath
  tempPath : FilePath
  durability : TxnDurability
  state : TxnState
  deriving DecidableEq, Repr

/-- The files, and the caller's handle, which is `NULL` when it has none. -/
structure TxnWorld where
  files : Files FilePath UInt8
  txn : Option TxnHandle

structure TxnDesc where
  path : Option FilePath
  durability : TxnDurability
  stagingDir : Option String

/-- What the system answers while a transaction is opened: the process id, what `mkstemp` puts for `XXXXXX`
unless it fails, and whether the temporary file could be given its suffix. -/
structure OpenOutcome where
  pid : Nat
  random : Option String
  renamed : Bool

def pathMax : Nat := 4096

def FilePath.length (path : FilePath) : Nat := path.directory.utf8ByteSize + 1 + path.name.utf8ByteSize

/-- The name without `.tmp`, the one `mkstemp` is given. -/
def tempTemplate (directory basename : String) (pid : Nat) (random : String) : FilePath where
  directory := directory
  name := "." ++ basename ++ "." ++ toString pid ++ "." ++ random

def FilePath.suffixed (path : FilePath) (suffix : String) : FilePath := { path with name := path.name ++ suffix }

/-- The path of the temporary file, or no file. `mkstemp` never takes a name that exists. -/
def createTempFile (directory basename : String) (outcome : OpenOutcome) (files : Files FilePath UInt8) :
    Option FilePath × Files FilePath UInt8 :=
  if ((tempTemplate directory basename outcome.pid "XXXXXX").suffixed ".tmp").length ≥ pathMax then (none,files)
  else match outcome.random with
    | none => (none,files)
    | some random =>
      let template := tempTemplate directory basename outcome.pid random
      if files template ≠ none then (none,files)
      else if outcome.renamed then
        (some (template.suffixed ".tmp"),(files.create template).rename template (template.suffixed ".tmp"))
      else (none,(files.create template).remove template)

/-- The handle returned, or `NULL`. -/
def txnOpen (desc : TxnDesc) (outcome : OpenOutcome) (files : Files FilePath UInt8) :
    Option TxnHandle × Files FilePath UInt8 :=
  match desc.path with
  | none => (none,files)
  | some path =>
    let stagingDir := desc.stagingDir.getD path.directory
    if stagingDir.utf8ByteSize ≥ pathMax then (none,files)
    else if path.name.utf8ByteSize ≥ pathMax then (none,files)
    else match createTempFile stagingDir path.name outcome files with
      | (none,files) => (none,files)
      | (some tempPath,files) =>
        (some { opened := true, finalPath := path, tempPath, durability := desc.durability, state := .active },files)

/-- One return of `write`: some of the bytes, `EINTR`, or another error. -/
inductive WriteOutcome
  | stored (count : Nat)
  | interrupted
  | refused
  deriving DecidableEq, Repr

/-- The loop of `nmo_txn_write` on the bytes that are left. The system stores no more than it is given; where
no answer is listed it stores all. -/
def writeLoop (path : FilePath) : List WriteOutcome → List UInt8 → Run (Files FilePath UInt8) Unit
  | _,[] => pure ()
  | [],data => Action.update fun files => files.append path data
  | .interrupted :: outcomes,data => writeLoop path outcomes data
  | .refused :: _,_ => fail .cantWriteFile "Failed to write to temporary file"
  | .stored 0 :: _,_ => fail .cantWriteFile "Unexpected EOF while writing"
  | .stored (count + 1) :: outcomes,data => do
    Action.update fun files => files.append path (data.take (count + 1))
    writeLoop path outcomes (data.drop (count + 1))

/-- `data` is `none` for a null pointer with a positive size. -/
def txnWrite (data : Option (List UInt8)) (outcomes : List WriteOutcome) : Run TxnWorld Unit where
  run w := match w.txn,data with
    | none,_ => (.error (.error .invalidArgument "Transaction handle is NULL"),w)
    | some _,none => (.error (.error .invalidArgument "Data pointer is NULL"),w)
    | some txn,some data =>
      if txn.state ≠ .active then (.error (.error .invalidState "Transaction is not active"),w)
      else if txn.opened = false then (.error (.error .invalidState "File descriptor is invalid"),w)
      else
        let (result,files) := (writeLoop txn.tempPath outcomes data).run w.files
        (result,{ w with files })

/-- Which of the calls made by a commit succeed. -/
structure CommitOutcome where
  synced : Bool
  closed : Bool
  renamed : Bool
  deriving DecidableEq, Repr

def syncs (durability : TxnDurability) (outcome : CommitOutcome) : Bool := match durability with
  | .none => true
  | .fdatasync | .fsync => outcome.synced

def txnCommit (outcome : CommitOutcome) : Run TxnWorld Unit where
  run w := match w.txn with
    | none => (.error (.error .invalidArgument "Transaction handle is NULL"),w)
    | some txn =>
      if txn.state ≠ .active then (.error (.error .invalidState "Transaction is not active"),w)
      else if txn.opened = false then (.error (.error .invalidState "File descriptor is invalid"),w)
      else if syncs txn.durability outcome = false then
        (.error (.error .cantWriteFile "Failed to sync file to disk"),w)
      else
        let closed := { w with txn := some { txn with opened := false } }
        if outcome.closed = false then
          (.error (.error .cantWriteFile "Failed to close temporary file"),closed)
        else if outcome.renamed = false then
          (.error (.error .cantWriteFile "Failed to rename temporary file to final path"),closed)
        else
          (.ok (),{ files := w.files.rename txn.tempPath txn.finalPath,
                    txn := some { txn with opened := false, state := .committed } })

def txnRollback : Run TxnWorld Unit where
  run w := match w.txn with
    | none => (.error (.error .invalidArgument "Transaction handle is NULL"),w)
    | some txn =>
      if txn.state ≠ .active then (.error (.error .invalidState "Transaction is not active"),w)
      else
        (.ok (),{ files := w.files.remove txn.tempPath,
                  txn := some { txn with opened := false, state := .rolledBack } })

/-- The handle is freed, and the caller lets go of it. -/
def txnClose (w : TxnWorld) : TxnWorld := match w.txn with
  | none => w
  | some txn => { files := if txn.state = .active then w.files.remove txn.tempPath else w.files, txn := none }

end Libnmo.Io

/-! Runs of transaction calls. Beside the files and the handle, a run remembers what
the destination held when the transaction was opened, the data of the writes that
returned `NMO_OK`, and whether a write failed after some of its bytes were stored. -/
namespace Libnmo.Io
open Core Lib

inductive TxnOp
  | start (desc : TxnDesc) (outcome : OpenOutcome)
  | write (data : Option (List UInt8)) (outcomes : List WriteOutcome)
  | commit (outcome : CommitOutcome)
  | rollback
  | close

/-- The call, with the handle it leaves in the caller's variable. -/
def TxnOp.perform : TxnOp → Run TxnWorld Unit
  | .start desc outcome => Action.update fun w =>
    let (txn,files) := txnOpen desc outcome w.files
    { files, txn }
  | .write data outcomes => txnWrite data outcomes
  | .commit outcome => txnCommit outcome
  | .rollback => txnRollback
  | .close => Action.update txnClose

/-- The system stores some of the `size` bytes, `written` of them before these answers, and then refuses the rest. -/
def leavesBytes (written size : Nat) : List WriteOutcome → Bool
  | [] => false
  | .interrupted :: outcomes => leavesBytes written size outcomes
  | .refused :: _ | .stored 0 :: _ => 0 < written && written < size
  | .stored (count + 1) :: outcomes => written < size && leavesBytes (written + (count + 1)) size outcomes

structure TxnRun where
  world : TxnWorld
  before : Option (List UInt8) := none
  acknowledged : List UInt8 := []
  stray : Bool := false

def TxnHandle.takesWrites (txn : TxnHandle) : Bool := txn.state = .active && txn.opened

def TxnRun.takesWrites (r : TxnRun) : Bool := match r.world.txn with
  | none => false
  | some txn => txn.takesWrites

def TxnRun.result (r : TxnRun) (op : TxnOp) : Result Unit := (op.perform.run r.world).1

def TxnRun.step (r : TxnRun) (op : TxnOp) : TxnRun :=
  let world := (op.perform.run r.world).2
  match op with
  | .start _ _ => { world, before := world.txn.bind fun txn => r.world.files txn.finalPath }
  | .write data outcomes =>
    { r with
      world
      acknowledged := match r.result op with
        | .ok () => r.acknowledged ++ data.getD []
        | .error _ => r.acknowledged
      stray := r.stray || (r.takesWrites && leavesBytes 0 (data.getD []).length outcomes) }
  | .commit _ | .rollback | .close => { r with world }

/-- No transaction has been opened. -/
def TxnRun.initial (files : Files FilePath UInt8) : TxnRun where
  world := { files, txn := none }

/-- A commit on which no check and no call fails. -/
def TxnRun.goesThrough (r : TxnRun) (outcome : CommitOutcome) : Bool := match r.world.txn with
  | none => false
  | some txn => txn.takesWrites && syncs txn.durability outcome && outcome.closed && outcome.renamed

/-- What a transaction promises of one call in a run. -/
structure AtomicStep (r : TxnRun) (op : TxnOp) : Prop where
  opens : ∀ desc outcome, op = .start desc outcome → ∀ txn, (r.step op).world.txn = some txn →
    (r.step op).world.files txn.finalPath = r.world.files txn.finalPath
  changes : ∀ txn, r.world.txn = some txn → (∀ desc outcome, op ≠ .start desc outcome) →
    (r.step op).world.files txn.finalPath ≠ r.world.files txn.finalPath →
    (∃ outcome, op = .commit outcome) ∧ r.result op = .ok ()
  publishes : ∀ outcome, op = .commit outcome → r.result op = .ok () → ∀ txn, r.world.txn = some txn →
    (r.step op).world.files txn.finalPath = some r.acknowledged
  withdraws : op = .rollback → r.result op = .ok () → ∀ txn, r.world.txn = some txn →
    (r.step op).world.files txn.finalPath = r.before ∧ (r.step op).world.files txn.tempPath = none
  closes : op = .close → ∀ txn, r.world.txn = some txn → txn.state ≠ .committed →
    (r.step op).world.files txn.finalPath = r.before ∧ (r.step op).world.files txn.tempPath = none

/-- A commit that goes through does not follow a write that failed midway. -/
def CleanStep (r : TxnRun) (op : TxnOp) : Prop :=
  ∀ outcome, op = .commit outcome → r.goesThrough outcome = true → r.stray = false

/-- What is known of the destination and the temporary file while a handle is held. -/
def TxnFiles (r : TxnRun) (txn : TxnHandle) : Prop := match txn.state with
  | .idle => False
  | .active => r.world.files txn.finalPath = r.before ∧ (txn.opened = true → ∃ content,
      r.world.files txn.tempPath = some content ∧ (r.stray = false → content = r.acknowledged) ∧
      r.acknowledged.length ≤ content.length ∧ (r.stray = true → r.acknowledged.length < content.length))
  | .committed => True
  | .rolledBack => r.world.files txn.finalPath = r.before ∧ r.world.files txn.tempPath = none

structure TxnSound (r : TxnRun) : Prop where
  apart : ∀ txn, r.world.txn = some txn → txn.finalPath ≠ txn.tempPath
  files : ∀ txn, r.world.txn = some txn → TxnFiles r txn

theorem longer_name (directory basename : String) (pid : Nat) (random : String) :
    basename.utf8ByteSize < (tempTemplate directory basename pid random).name.utf8ByteSize := by
  have dot : ".".utf8ByteSize = 1 := rfl
  simp only [tempTemplate,String.utf8ByteSize_append,dot]
  omega

/-- No temporary file is created over the destination. -/
theorem template_apart (path : FilePath) (directory : String) (pid : Nat) (random suffix : String) :
    path ≠ (tempTemplate directory path.name pid random).suffixed suffix := by
  intro same
  have longer := longer_name directory path.name pid random
  have size := congrArg (fun place => place.name.utf8ByteSize) same
  simp only [FilePath.suffixed,String.utf8ByteSize_append] at size
  omega

theorem suffixed_empty (path : FilePath) : path.suffixed "" = path := by
  simp [FilePath.suffixed]

section
variable {directory : String} {path tempPath : FilePath} {outcome : OpenOutcome} {files made : Files FilePath UInt8}

theorem createTempFile_made
    (ok : createTempFile directory path.name outcome files = (some tempPath,made)) :
    path ≠ tempPath ∧ made tempPath = some [] ∧ made path = files path := by
  simp only [createTempFile] at ok
  split at ok
  · cases ok
  · split at ok
    · cases ok
    · rename_i random _
      split at ok
      · cases ok
      · split at ok
        · have away := template_apart path directory outcome.pid random
          have plain : path ≠ tempTemplate directory path.name outcome.pid random := by
            have unsuffixed := away ""
            rwa [suffixed_empty] at unsuffixed
          cases ok
          refine ⟨away ".tmp",?_,?_⟩
          · rw [Files.rename_target,Files.create_same]
          · rw [Files.rename_other _ (away ".tmp") plain,Files.create_other _ plain]
        · cases ok

/-- An opened transaction has an empty temporary file, and the destination is as it was. -/
theorem txnOpen_opened {desc : TxnDesc} {txn : TxnHandle} (ok : txnOpen desc outcome files = (some txn,made)) :
    txn.state = .active ∧ txn.opened = true ∧ txn.finalPath ≠ txn.tempPath ∧
      made txn.tempPath = some [] ∧ made txn.finalPath = files txn.finalPath := by
  simp only [txnOpen] at ok
  split at ok
  · cases ok
  · split at ok
    · cases ok
    · split at ok
      · cases ok
      · split at ok
        · cases ok
        · rename_i created
          obtain ⟨apart,empty,same⟩ := createTempFile_made created
          cases ok
          exact ⟨rfl,rfl,apart,empty,same⟩

end

/-- What one write leaves in the file, and when a failing one leaves anything. -/
structure WriteEffect (path : FilePath) (outcomes : List WriteOutcome) (written : Nat) (data : List UInt8)
    (before : Files FilePath UInt8) (stored : List UInt8) : Prop where
  files : ((writeLoop path outcomes data).run before).2 = before.append path stored
  whole : ((writeLoop path outcomes data).run before).1 = .ok () → stored = data
  stray : leavesBytes written (written + data.length) outcomes = true ↔
    ((writeLoop path outcomes data).run before).1 ≠ .ok () ∧ 0 < written + stored.length

theorem leavesBytes_done {written size : Nat} (done : size ≤ written) (outcomes : List WriteOutcome) :
    leavesBytes written size outcomes = false := by
  induction outcomes with
  | nil => rfl
  | cons outcome outcomes ih => cases outcome with
    | stored count => cases count <;> simp [leavesBytes,Nat.not_lt.mpr done]
    | interrupted => exact ih
    | refused => simp [leavesBytes,Nat.not_lt.mpr done]

theorem writeLoop_nil (path : FilePath) (outcomes : List WriteOutcome) : writeLoop path outcomes [] = pure () := by
  cases outcomes <;> rfl

theorem writeLoop_done (path : FilePath) (outcomes : List WriteOutcome) (written : Nat)
    (files : Files FilePath UInt8) : WriteEffect path outcomes written [] files [] := by
  refine ⟨?_,fun _ => rfl,?_⟩
  · rw [writeLoop_nil,Files.append_nil]
    rfl
  · have full : leavesBytes written (written + ([] : List UInt8).length) outcomes = false :=
      leavesBytes_done (Nat.le_refl _) outcomes
    rw [writeLoop_nil,full]
    simp

/-- The loop stores a part of the data, all of it when it succeeds. -/
theorem writeLoop_effect (path : FilePath) (outcomes : List WriteOutcome) (written : Nat) (data : List UInt8)
    (files : Files FilePath UInt8) : ∃ stored, WriteEffect path outcomes written data files stored := by
  induction outcomes generalizing written data files with
  | nil => cases data with
    | nil => exact ⟨[],writeLoop_done path [] written files⟩
    | cons first rest => exact ⟨first :: rest,rfl,fun _ => rfl,by simp [leavesBytes,writeLoop]⟩
  | cons outcome outcomes ih => cases data with
    | nil => exact ⟨[],writeLoop_done path _ written files⟩
    | cons first rest => cases outcome with
      | interrupted =>
        obtain ⟨stored,effect⟩ := ih written (first :: rest) files
        exact ⟨stored,effect.files,effect.whole,effect.stray⟩
      | refused =>
        refine ⟨[],(Files.append_nil files).symm,?_,?_⟩
        · intro ok
          cases ok
        · simp [leavesBytes,writeLoop,fail]
      | stored count => cases count with
        | zero =>
          refine ⟨[],(Files.append_nil files).symm,?_,?_⟩
          · intro ok
            cases ok
          · simp [leavesBytes,writeLoop,fail]
        | succ count =>
          generalize taken : (first :: rest).take (count + 1) = front
          generalize dropped : (first :: rest).drop (count + 1) = back
          have joined : front ++ back = first :: rest := by
            rw [← taken,← dropped]
            exact List.take_append_drop ..
          have whole : front.length + back.length = rest.length + 1 := by
            rw [← List.length_append,joined]
            rfl
          have size : front.length = min (count + 1) (rest.length + 1) := by
            rw [← taken,List.length_take]
            rfl
          obtain ⟨stored,effect⟩ := ih (written + front.length) back (files.append path front)
          have ran : (writeLoop path (.stored (count + 1) :: outcomes) (first :: rest)).run files =
              (writeLoop path outcomes back).run (files.append path front) := by
            rw [← taken,← dropped]
            rfl
          refine ⟨front ++ stored,?_,?_,?_⟩
          · rw [ran,effect.files,Files.append_append]
          · rw [ran]
            intro ok
            rw [effect.whole ok,joined]
          · rw [ran]
            have steps : leavesBytes written (written + (first :: rest).length) (.stored (count + 1) :: outcomes) =
                leavesBytes (written + front.length) (written + front.length + back.length) outcomes := by
              have total : written + front.length + back.length = written + (rest.length + 1) := by omega
              simp only [leavesBytes,total,List.length_cons]
              by_cases fits : count + 1 ≤ rest.length + 1
              · rw [size,Nat.min_eq_left fits]
                simp
              · rw [leavesBytes_done (by omega),leavesBytes_done (by omega),Bool.and_false]
            rw [steps,effect.stray,List.length_append,Nat.add_assoc]

theorem txnWrite_cases (data : Option (List UInt8)) (outcomes : List WriteOutcome) (w : TxnWorld) :
    (∃ txn bytes stored, w.txn = some txn ∧ txn.takesWrites = true ∧ data = some bytes ∧
      WriteEffect txn.tempPath outcomes 0 bytes w.files stored ∧ (txnWrite data outcomes).run w =
        (((writeLoop txn.tempPath outcomes bytes).run w.files).1,
          { w with files := w.files.append txn.tempPath stored })) ∨
    ((∃ stop, (txnWrite data outcomes).run w = (.error stop,w)) ∧
      ((∀ txn, w.txn = some txn → txn.takesWrites = false) ∨ data = none)) := by
  cases held : w.txn with
  | none => exact .inr ⟨⟨_,by rw [txnWrite]; simp only [held]; rfl⟩,.inl (fun _ absurd => by cases absurd)⟩
  | some txn => cases data with
    | none => exact .inr ⟨⟨_,by rw [txnWrite]; simp only [held]; rfl⟩,.inr rfl⟩
    | some bytes =>
      by_cases active : txn.state = .active
      · cases opened : txn.opened with
        | false =>
          refine .inr ⟨⟨_,by rw [txnWrite]; simp only [held,active,opened]; rfl⟩,.inl ?_⟩
          intro other same
          cases same
          simp [TxnHandle.takesWrites,opened]
        | true =>
          obtain ⟨stored,effect⟩ := writeLoop_effect txn.tempPath outcomes 0 bytes w.files
          refine .inl ⟨txn,bytes,stored,rfl,by simp [TxnHandle.takesWrites,active,opened],rfl,effect,?_⟩
          rw [← effect.files]
          rw [txnWrite]
          simp [held,active,opened]
      · refine .inr ⟨⟨_,by rw [txnWrite]; simp only [held]; rw [if_pos active]⟩,.inl ?_⟩
        intro other same
        cases same
        simp [TxnHandle.takesWrites,active]

/-- A commit goes through, or is refused with nothing changed, or ends with the descriptor closed. -/
theorem txnCommit_cases (outcome : CommitOutcome) (r : TxnRun) :
    (∃ txn, r.world.txn = some txn ∧ txn.takesWrites = true ∧ r.goesThrough outcome = true ∧
      (txnCommit outcome).run r.world = (.ok (),
        { files := r.world.files.rename txn.tempPath txn.finalPath,
          txn := some { txn with opened := false, state := .committed } })) ∨
    (r.goesThrough outcome = false ∧ ∃ stop, (txnCommit outcome).run r.world = (.error stop,r.world)) ∨
    (r.goesThrough outcome = false ∧ ∃ txn stop, r.world.txn = some txn ∧ txn.state = .active ∧
      (txnCommit outcome).run r.world =
        (.error stop,{ r.world with txn := some { txn with opened := false } })) := by
  cases held : r.world.txn with
  | none => exact .inr (.inl ⟨by simp [TxnRun.goesThrough,held],_,by rw [txnCommit]; simp only [held]; rfl⟩)
  | some txn =>
    have through : r.goesThrough outcome =
        (txn.takesWrites && syncs txn.durability outcome && outcome.closed && outcome.renamed) := by
      simp [TxnRun.goesThrough,held]
    rw [through]
    by_cases active : txn.state = .active
    · cases opened : txn.opened with
      | false =>
        exact .inr (.inl ⟨by simp [TxnHandle.takesWrites,opened],_,by
          rw [txnCommit]; simp only [held,active,opened]; rfl⟩)
      | true => cases synced : syncs txn.durability outcome with
        | false =>
          exact .inr (.inl ⟨by simp,_,by rw [txnCommit]; simp only [held,active,opened,synced]; rfl⟩)
        | true => cases closed : outcome.closed with
          | false =>
            exact .inr (.inr ⟨by simp,txn,_,rfl,active,by
              rw [txnCommit]; simp only [held,active,opened,synced,closed]; rfl⟩)
          | true => cases renamed : outcome.renamed with
            | false =>
              exact .inr (.inr ⟨by simp,txn,_,rfl,active,by
                rw [txnCommit]; simp only [held,active,opened,synced,closed,renamed]; rfl⟩)
            | true =>
              have takes : txn.takesWrites = true := by simp [TxnHandle.takesWrites,active,opened]
              exact .inl ⟨txn,rfl,takes,by rw [takes]; rfl,by
                rw [txnCommit]; simp [held,active,opened,synced,closed,renamed]⟩
    · exact .inr (.inl ⟨by simp [TxnHandle.takesWrites,active],_,by
        rw [txnCommit]; simp only [held]; rw [if_pos active]⟩)

section
variable {r : TxnRun}

theorem start_sound (desc : TxnDesc) (outcome : OpenOutcome) : TxnSound (r.step (.start desc outcome)) := by
  have opened : ∀ txn, (r.step (.start desc outcome)).world.txn = some txn →
      txn.finalPath ≠ txn.tempPath ∧ TxnFiles (r.step (.start desc outcome)) txn := by
    intro txn held
    obtain ⟨active,_,apart,empty,same⟩ := txnOpen_opened (Prod.ext held rfl)
    refine ⟨apart,?_⟩
    rw [TxnFiles,active]
    refine ⟨?_,fun _ => ⟨[],empty,fun _ => rfl,Nat.le_refl _,?_⟩⟩
    · change _ = Option.bind (r.step (.start desc outcome)).world.txn _
      rw [held]
      exact same
    · intro stray
      cases stray
  exact ⟨fun txn held => (opened txn held).1,fun txn held => (opened txn held).2⟩

theorem takesWrites_active {txn : TxnHandle} (takes : txn.takesWrites = true) :
    txn.state = .active ∧ txn.opened = true := by
  simpa [TxnHandle.takesWrites] using takes

/-- The temporary file of a handle that takes writes. -/
theorem temp_content (sound : TxnSound r) {txn : TxnHandle} (held : r.world.txn = some txn)
    (takes : txn.takesWrites = true) : r.world.files txn.finalPath = r.before ∧ ∃ content,
      r.world.files txn.tempPath = some content ∧ (r.stray = false → content = r.acknowledged) ∧
      r.acknowledged.length ≤ content.length ∧ (r.stray = true → r.acknowledged.length < content.length) := by
  obtain ⟨active,opened⟩ := takesWrites_active takes
  have files := sound.files txn held
  rw [TxnFiles,active] at files
  exact ⟨files.1,files.2 opened⟩

theorem step_write_rejected {data : Option (List UInt8)} {outcomes : List WriteOutcome} {stop : Stop}
    (ran : (txnWrite data outcomes).run r.world = (.error stop,r.world))
    (idle : (∀ txn, r.world.txn = some txn → txn.takesWrites = false) ∨ data = none) :
    r.step (.write data outcomes) = r := by
  have calm : (r.takesWrites && leavesBytes 0 (data.getD []).length outcomes) = false := by
    cases idle with
    | inl idle =>
      cases held : r.world.txn with
      | none => simp [TxnRun.takesWrites,held]
      | some txn => simp [TxnRun.takesWrites,held,idle txn held]
    | inr missing =>
      rw [missing]
      simp [leavesBytes_done]
  simp only [TxnRun.step,TxnRun.result,TxnOp.perform,ran,calm,Bool.or_false]

theorem write_sound (sound : TxnSound r) (data : Option (List UInt8)) (outcomes : List WriteOutcome) :
    TxnSound (r.step (.write data outcomes)) := by
  cases txnWrite_cases data outcomes r.world with
  | inr rejected =>
    obtain ⟨⟨stop,ran⟩,idle⟩ := rejected
    rw [step_write_rejected ran idle]
    exact sound
  | inl accepted =>
    obtain ⟨txn,bytes,stored,held,takes,rfl,effect,ran⟩ := accepted
    obtain ⟨same,content,temp,clean,least,more⟩ := temp_content sound held takes
    obtain ⟨active,opened⟩ := takesWrites_active takes
    have world : (r.step (.write (some bytes) outcomes)).world =
        { r.world with files := r.world.files.append txn.tempPath stored } := by
      change ((txnWrite (some bytes) outcomes).run r.world).2 = _
      rw [ran]
    have stray : (r.step (.write (some bytes) outcomes)).stray =
        (r.stray || leavesBytes 0 bytes.length outcomes) := by
      simp [TxnRun.step,TxnRun.takesWrites,held,takes]
    have acknowledged : (r.step (.write (some bytes) outcomes)).acknowledged =
        match ((writeLoop txn.tempPath outcomes bytes).run r.world.files).1 with
        | .ok () => r.acknowledged ++ bytes
        | .error _ => r.acknowledged := by
      change (match ((txnWrite (some bytes) outcomes).run r.world).1 with
        | .ok () => r.acknowledged ++ bytes
        | .error _ => r.acknowledged) = _
      rw [ran]
    have leaves := effect.stray
    rw [Nat.zero_add,Nat.zero_add] at leaves
    refine ⟨?_,?_⟩
    · rw [world]
      exact sound.apart
    · intro other still
      rw [world] at still
      have equal : txn = other := by
        change r.world.txn = some other at still
        rw [held] at still
        exact Option.some.inj still
      rw [← equal,TxnFiles,active]
      have apart := sound.apart txn held
      refine ⟨?_,fun _ => ⟨content ++ stored,?_,?_⟩⟩
      · rw [world]
        change r.world.files.append txn.tempPath stored txn.finalPath = r.before
        rw [Files.append_other _ apart,same]
      · rw [world]
        change r.world.files.append txn.tempPath stored txn.tempPath = _
        rw [Files.append_same,temp]
        rfl
      · rw [stray,acknowledged]
        split
        · rename_i ok
          have all := effect.whole ok
          have kept : leavesBytes 0 bytes.length outcomes = false := by
            rw [← Bool.not_eq_true,leaves]
            exact fun failed => failed.1 ok
          rw [kept,Bool.or_false,all,List.length_append,List.length_append]
          refine ⟨fun none => by rw [clean none],by omega,fun some => ?_⟩
          have longer := more some
          omega
        · rename_i stop failed
          have outcome : leavesBytes 0 bytes.length outcomes = true ↔ 0 < stored.length := by
            rw [leaves,failed]
            simp
          rw [List.length_append]
          refine ⟨?_,by omega,?_⟩
          · intro none
            obtain ⟨calm,kept⟩ := Bool.or_eq_false_iff.mp none
            have empty : stored = [] := by
              cases stored with
              | nil => rfl
              | cons first rest =>
                rw [outcome.mpr (Nat.succ_pos _)] at kept
                cases kept
            rw [empty,List.append_nil,clean calm]
          · intro some
            cases Bool.or_eq_true_iff.mp some with
            | inl earlier =>
              have longer := more earlier
              omega
            | inr now =>
              have positive := outcome.mp now
              omega

theorem commit_sound (sound : TxnSound r) (outcome : CommitOutcome) : TxnSound (r.step (.commit outcome)) := by
  rcases txnCommit_cases outcome r with ⟨txn,held,takes,through,ran⟩ | ⟨through,stop,ran⟩ |
    ⟨through,txn,stop,held,active,ran⟩
  · have stepped : r.step (.commit outcome) = { r with world :=
        { files := r.world.files.rename txn.tempPath txn.finalPath,
          txn := some { txn with opened := false, state := .committed } } } := by
      simp only [TxnRun.step,TxnOp.perform,ran]
    rw [stepped]
    refine ⟨fun other same => ?_,fun other same => ?_⟩
    · cases same
      exact sound.apart txn held
    · cases same
      trivial
  · have stepped : r.step (.commit outcome) = r := by
      simp only [TxnRun.step,TxnOp.perform,ran]
    rw [stepped]
    exact sound
  · have stepped : r.step (.commit outcome) =
        { r with world := { r.world with txn := some { txn with opened := false } } } := by
      simp only [TxnRun.step,TxnOp.perform,ran]
    have files := sound.files txn held
    rw [TxnFiles,active] at files
    rw [stepped]
    refine ⟨fun other same => ?_,fun other same => ?_⟩
    · cases same
      exact sound.apart txn held
    · cases same
      rw [TxnFiles,active]
      exact ⟨files.1,fun absurd => by cases absurd⟩

theorem rollback_cases (r : TxnRun) :
    (∃ txn, r.world.txn = some txn ∧ txn.state = .active ∧ r.result .rollback = .ok () ∧
      r.step .rollback = { r with world :=
        { files := r.world.files.remove txn.tempPath,
          txn := some { txn with opened := false, state := .rolledBack } } }) ∨
    (r.result .rollback ≠ .ok () ∧ r.step .rollback = r) := by
  cases held : r.world.txn with
  | none =>
    have ran : txnRollback.run r.world =
        (.error (.error .invalidArgument "Transaction handle is NULL"),r.world) := by
      rw [txnRollback]
      simp only [held]
    exact .inr ⟨by simp [TxnRun.result,TxnOp.perform,ran],by simp only [TxnRun.step,TxnOp.perform,ran]⟩
  | some txn =>
    by_cases active : txn.state = .active
    · have ran : txnRollback.run r.world = (.ok (),⟨r.world.files.remove txn.tempPath,
          some { txn with opened := false, state := .rolledBack }⟩) := by
        rw [txnRollback]
        simp [held,active]
      exact .inl ⟨txn,rfl,active,by simp [TxnRun.result,TxnOp.perform,ran],
        by simp only [TxnRun.step,TxnOp.perform,ran]⟩
    · have ran : txnRollback.run r.world =
          (.error (.error .invalidState "Transaction is not active"),r.world) := by
        rw [txnRollback]
        simp only [held]
        rw [if_pos active]
      exact .inr ⟨by simp [TxnRun.result,TxnOp.perform,ran],by simp only [TxnRun.step,TxnOp.perform,ran]⟩

theorem active_before (sound : TxnSound r) {txn : TxnHandle} (held : r.world.txn = some txn)
    (active : txn.state = .active) : r.world.files txn.finalPath = r.before := by
  have files := sound.files txn held
  rw [TxnFiles,active] at files
  exact files.1

/-- Taking the temporary file away leaves the destination as it was at the start. -/
theorem withdrawn_files (sound : TxnSound r) {txn : TxnHandle} (held : r.world.txn = some txn)
    (active : txn.state = .active) : r.world.files.remove txn.tempPath txn.finalPath = r.before ∧
      r.world.files.remove txn.tempPath txn.tempPath = none := by
  refine ⟨?_,Files.remove_same _⟩
  rw [Files.remove_other _ (sound.apart txn held)]
  exact active_before sound held active

theorem rollback_sound (sound : TxnSound r) : TxnSound (r.step .rollback) := by
  cases rollback_cases r with
  | inl done =>
    obtain ⟨txn,held,active,_,stepped⟩ := done
    rw [stepped]
    refine ⟨fun other same => ?_,fun other same => ?_⟩
    · cases same
      exact sound.apart txn held
    · have withdrawn := withdrawn_files sound held active
      cases same
      exact withdrawn
  | inr refused =>
    rw [refused.2]
    exact sound

theorem close_sound : TxnSound (r.step .close) := by
  have gone : (r.step .close).world.txn = none := by
    change (txnClose r.world).txn = none
    rw [txnClose]
    split
    · assumption
    · rfl
  refine ⟨?_,?_⟩
  · intro txn held
    rw [gone] at held
    cases held
  · intro txn held
    rw [gone] at held
    cases held

theorem step_sound (op : TxnOp) (sound : TxnSound r) : TxnSound (r.step op) := by
  cases op with
  | start desc outcome => exact start_sound desc outcome
  | write data outcomes => exact write_sound sound data outcomes
  | commit outcome => exact commit_sound sound outcome
  | rollback => exact rollback_sound sound
  | close => exact close_sound

theorem initial_sound (files : Files FilePath UInt8) : TxnSound (.initial files) where
  apart _ held := by cases held
  files _ held := by cases held

end

section
variable {r : TxnRun}

theorem start_atomic (desc : TxnDesc) (outcome : OpenOutcome) : AtomicStep r (.start desc outcome) where
  opens := by
    intro _ _ same txn held
    cases same
    obtain ⟨_,_,_,_,kept⟩ := txnOpen_opened (Prod.ext held rfl)
    exact kept
  changes _ _ other := absurd rfl (other desc outcome)
  publishes _ same := by cases same
  withdraws same := by cases same
  closes same := by cases same

variable (sound : TxnSound r)
include sound

theorem write_atomic (data : Option (List UInt8)) (outcomes : List WriteOutcome) :
    AtomicStep r (.write data outcomes) where
  opens _ _ same := by cases same
  changes := by
    intro txn held _ changed
    refine absurd ?_ changed
    change ((txnWrite data outcomes).run r.world).2.files txn.finalPath = _
    rcases txnWrite_cases data outcomes r.world with ⟨other,bytes,stored,same,_,_,_,ran⟩ | ⟨⟨stop,ran⟩,_⟩
    · rw [held] at same
      cases same
      rw [ran]
      exact Files.append_other _ (sound.apart txn held)
    · rw [ran]
  publishes _ same := by cases same
  withdraws same := by cases same
  closes same := by cases same

theorem rollback_atomic : AtomicStep r .rollback where
  opens _ _ same := by cases same
  changes := by
    intro txn held _ changed
    refine absurd ?_ changed
    rcases rollback_cases r with ⟨other,same,active,_,stepped⟩ | ⟨_,stepped⟩
    · rw [held] at same
      cases same
      rw [stepped]
      exact Files.remove_other _ (sound.apart txn held)
    · rw [stepped]
  publishes _ same := by cases same
  withdraws := by
    intro _ ok txn held
    rcases rollback_cases r with ⟨other,same,active,_,stepped⟩ | ⟨refused,_⟩
    · rw [held] at same
      cases same
      rw [stepped]
      exact withdrawn_files sound held active
    · exact absurd ok refused
  closes same := by cases same

theorem close_atomic : AtomicStep r .close where
  opens _ _ same := by cases same
  changes := by
    intro txn held _ changed
    refine absurd ?_ changed
    change (txnClose r.world).files txn.finalPath = _
    rw [txnClose]
    simp only [held]
    split
    · exact Files.remove_other _ (sound.apart txn held)
    · rfl
  publishes _ same := by cases same
  withdraws same := by cases same
  closes := by
    intro _ txn held uncommitted
    have closed : (r.step .close).world.files =
        if txn.state = .active then r.world.files.remove txn.tempPath else r.world.files := by
      change (txnClose r.world).files = _
      rw [txnClose]
      simp only [held]
    rw [closed]
    have files := sound.files txn held
    cases state : txn.state with
    | idle =>
      rw [TxnFiles,state] at files
      exact files.elim
    | active =>
      rw [if_pos rfl]
      exact withdrawn_files sound held state
    | committed => exact absurd state uncommitted
    | rolledBack =>
      rw [TxnFiles,state] at files
      exact files

omit sound in
theorem refused_atomic {outcome : CommitOutcome} (refused : r.result (.commit outcome) ≠ .ok ())
    (same : (r.step (.commit outcome)).world.files = r.world.files) : AtomicStep r (.commit outcome) where
  opens _ _ other := by cases other
  changes _ _ _ changed := by
    rw [same] at changed
    exact absurd rfl changed
  publishes _ _ ok := absurd ok refused
  withdraws other := by cases other
  closes other := by cases other

theorem commit_atomic_iff (outcome : CommitOutcome) :
    AtomicStep r (.commit outcome) ↔ (r.goesThrough outcome = true → r.stray = false) := by
  rcases txnCommit_cases outcome r with ⟨txn,held,takes,through,ran⟩ | ⟨through,stop,ran⟩ |
    ⟨through,txn,stop,held,active,ran⟩
  · obtain ⟨_,content,temp,clean,_,more⟩ := temp_content sound held takes
    have published : (r.step (.commit outcome)).world.files txn.finalPath = some content := by
      change ((txnCommit outcome).run r.world).2.files txn.finalPath = _
      rw [ran]
      exact (Files.rename_target _).trans temp
    have ok : r.result (.commit outcome) = .ok () := by
      rw [TxnRun.result,TxnOp.perform,ran]
    constructor
    · intro atomic _
      have promised := atomic.publishes outcome rfl ok txn held
      rw [published,Option.some.injEq] at promised
      rw [← Bool.not_eq_true]
      intro stray
      have longer := more stray
      rw [promised] at longer
      exact Nat.lt_irrefl _ longer
    · intro tidy
      exact {
        opens := fun _ _ same => by cases same
        changes := fun _ _ _ _ => ⟨⟨outcome,rfl⟩,ok⟩
        publishes := fun _ _ _ other same => by
          rw [held] at same
          cases same
          rw [published,clean (tidy through)]
        withdraws := fun same => by cases same
        closes := fun same => by cases same }
  · have refused : r.result (.commit outcome) ≠ .ok () := by simp [TxnRun.result,TxnOp.perform,ran]
    rw [through]
    refine ⟨fun _ ended => Bool.noConfusion ended,fun _ => refused_atomic refused ?_⟩
    simp only [TxnRun.step,TxnOp.perform,ran]
  · have refused : r.result (.commit outcome) ≠ .ok () := by simp [TxnRun.result,TxnOp.perform,ran]
    rw [through]
    refine ⟨fun _ ended => Bool.noConfusion ended,fun _ => refused_atomic refused ?_⟩
    simp only [TxnRun.step,TxnOp.perform,ran]

theorem step_atomic_iff (op : TxnOp) : AtomicStep r op ↔ CleanStep r op := by
  cases op with
  | start desc outcome => exact iff_of_true (start_atomic desc outcome) (fun _ same => by cases same)
  | write data outcomes => exact iff_of_true (write_atomic sound data outcomes) (fun _ same => by cases same)
  | rollback => exact iff_of_true (rollback_atomic sound) (fun _ same => by cases same)
  | close => exact iff_of_true (close_atomic sound) (fun _ same => by cases same)
  | commit outcome =>
    rw [commit_atomic_iff sound]
    constructor
    · intro clean other same
      cases same
      exact clean
    · intro clean
      exact clean outcome rfl

end

open Machine

/-- In every run the transaction keeps its promise at each call, exactly when no commit goes through after a write
that failed midway. -/
theorem atomic_iff_clean (files : Files FilePath UInt8) (ops : List TxnOp) :
    (∀ visit ∈ visits TxnRun.step (.initial files) ops, AtomicStep visit.1 visit.2) ↔
      ∀ visit ∈ visits TxnRun.step (.initial files) ops, CleanStep visit.1 visit.2 := by
  have sound := visits_keep (fun _ op sound => step_sound op sound) (initial_sound files) ops
  constructor
  · intro atomic visit member
    exact (step_atomic_iff (sound visit member) visit.2).mp (atomic visit member)
  · intro clean visit member
    exact (step_atomic_iff (sound visit member) visit.2).mpr (clean visit member)

/-- A write of two bytes of which the system stores one, and a commit. -/
def strayOps : List TxnOp := [
  .start { path := some ⟨"d","f"⟩, durability := .none, stagingDir := none } ⟨1,some "abcdef",true⟩,
  .write (some [1,2]) [.stored 1,.refused],
  .commit ⟨true,true,true⟩]

/-- The destination then holds the byte of the write that failed. -/
theorem stray_published : ¬ ∀ visit ∈ visits TxnRun.step (.initial fun _ => none) strayOps,
    AtomicStep visit.1 visit.2 := by
  intro atomic
  have member : (run TxnRun.step (.initial fun _ => none) (strayOps.take 2),TxnOp.commit ⟨true,true,true⟩) ∈
      visits TxnRun.step (.initial fun _ => none) strayOps := by
    simp [visits,strayOps,run]
  have promised := (atomic _ member).publishes _ rfl (by decide +kernel)
    ⟨true,⟨"d","f"⟩,⟨"d",".f.1.abcdef.tmp"⟩,.none,.active⟩ (by decide +kernel)
  revert promised
  decide +kernel

end Libnmo.Io
