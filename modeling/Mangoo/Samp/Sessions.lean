import Mangoo.Foundation.Decimal
import Mangoo.Fuse.Durability
import Mangoo.Fuse.FilesOnDisk

/-!
# Sessions of the sample program

`myapp.c` puts the texts that it is given one behind the other, each into a file of its own
choice, and keeps the place for the next one in the file `"/.newoffset"` between its sessions.
-/

namespace Mangoo.Samp

open Mangoo.Foundation Mangoo.Dbfs Mangoo.Fuse

def newoffset : CStr := ⟨[slash, 46, 110, 101, 119, 111, 102, 102, 115, 101, 116], by decide⟩

/-! ## Commands -/

/-- What `sscanf` puts into one of the arrays `tok1`, `tok2` and `tok3`. -/
structure Token where
  text : CStr
  fits : text.length < 20

/-- `char buffer[30]`. -/
structure Buffer where
  bytes : List UInt8
  length_eq : bytes.length = 30

/-- The memory and the process that a call of `sampwrite` meets, round by round. -/
structure Surroundings where
  openHeap : Nat → Heap
  createHeap : Nat → Heap
  writeHeap : Heap
  proc : Proc
  fuel : Nat

/-- The store and the offset afterwards.  The terminating NUL of the text is written as well,
and the next text goes over it. -/
def sampwrite (w : Surroundings) (path buf : CStr) :
    Nat → DbfsStore → Int64 → DbProg (DbfsStore × Int64)
  | 0, _, _ => .spin
  | fuel + 1, ms, offset => do
      let (_, handle) ← dbfsOpen (w.openHeap fuel) path .stream
      match handle with
      | none =>
          let (error, ms) ← dbfsCreate (w.createHeap fuel) w.proc ms path 0x81B6 .data
          if error ≠ 0 then return (ms, offset)
          else sampwrite w path buf fuel ms offset
      | some handle =>
          let sz := UInt64.ofNat (buf.bytes ++ [0]).length
          envOpen w.writeHeap
          let (error, _, _) ←
            dbfsWrite w.writeHeap handle (buf.bytes ++ [0]) sz offset.toUInt64
          if error ≠ 0 then return (ms, offset)
          else return (ms, (offset.toUInt64 + UInt64.ofNat buf.length).toInt64)

/-- What it prints, if it can read the file. -/
def sampread (openHeap readHeap : Heap) (buffer : Buffer) (path : CStr) :
    DbProg (Option (List UInt8)) := do
  let (_, handle) ← dbfsOpen openHeap path .stream
  match handle with
  | none => return none
  | some handle =>
      envOpen readHeap
      let (error, _, buffer) ← dbfsRead readHeap handle buffer.bytes handle.attrDdd.dddSize 0
      if error ≠ 0 then return none
      else return some (buffer.takeWhile (· ≠ 0))

def getdata (openHeap readHeap : Heap) (buffer : Buffer) (path : CStr) : DbProg Int64 := do
  let (_, handle) ← dbfsOpen openHeap path .stream
  match handle with
  | none => return 0
  | some handle =>
      envOpen readHeap
      let (error, _, buffer) ← dbfsRead readHeap handle buffer.bytes handle.attrDdd.dddSize 0
      if error ≠ 0 then return 0
      else return Int64.ofInt (atoi buffer)

/-- `ms` and `offset` of `main`. -/
structure Session where
  ms : DbfsStore
  offset : Int64

def Session.place (session : Session) : Nat := session.offset.toUInt64.toNat

theorem toInt_of_place {offset : Int64} (h : offset.toUInt64.toNat < 2 ^ 63) :
    offset.toInt = offset.toUInt64.toNat := by
  have hnat : offset.toBitVec.toNat = offset.toUInt64.toNat := rfl
  rw [← hnat] at h ⊢
  exact BitVec.toInt_eq_toNat_of_lt (by omega)

theorem place_ofInt {n : Nat} (h : n < 2 ^ 64) : (Int64.ofInt n).toUInt64.toNat = n := by
  change (Int64.ofInt n).toBitVec.toNat = n
  rw [Int64.toBitVec_ofInt, BitVec.ofInt_natCast, BitVec.toNat_ofNat, Nat.mod_eq_of_lt h]

/-- The commands of `main` other than `exit`; `help` stands also for what is no command. -/
inductive Command where
  | write (w : Surroundings) (path buf : Token)
  | read (openHeap readHeap : Heap) (buffer : Buffer) (path : Token)
  | getattr (heap : Heap) (fuel : Nat) (path : Token) (stbuf : Stat)
  | mkdir (heap : Heap) (proc : Proc) (path : Token)
  | help

def Command.prog (session : Session) : Command → DbProg Session
  | .write w path buf => do
      let (ms, offset) ← sampwrite w path.text buf.text w.fuel session.ms session.offset
      return ⟨ms, offset⟩
  | .read openHeap readHeap buffer path => do
      let _ ← sampread openHeap readHeap buffer path.text
      return session
  | .getattr heap fuel path stbuf => do
      let _ ← mfGetattr (dbfsCalls heap fuel) path.text stbuf
      return session
  | .mkdir heap proc path => do
      let (_, ms) ← dbfsCreate heap proc session.ms path.text 0x8180 .container
      return { session with ms := ms }
  | .help => return session

/-- The text that `exit` saves. -/
def newoff (session : Session) : CStr :=
  ⟨printInt session.offset.toInt, zero_notMem_printInt _⟩

/-! ## Sessions -/

structure SampSys where
  db : Db
  session : Option Session

inductive SampEvent where
  | start (initHeap openHeap readHeap : Heap) (buffer : Buffer)
  | command (command : Command)
  | exit (w : Surroundings)

/-- The calls to the database may fail during a command.  A session ends with `exit` only: what
one leaves that ends in any other way is not known, since nothing is flushed before. -/
inductive SampStep : SampSys → SampEvent → SampSys → Prop
  | start {s initHeap openHeap readHeap buffer ms offset mid db'} : s.session = none →
      (dbfsInitstore initHeap).run s.db = some ((0, some ms), mid) →
      (getdata openHeap readHeap buffer newoffset).run mid = some (offset, db') →
      SampStep s (.start initHeap openHeap readHeap buffer) ⟨db', some ⟨ms, offset⟩⟩
  | command {s session command session' db'} : s.session = some session →
      Prog.Exec True (command.prog session) s.db session' db' →
      SampStep s (.command command) ⟨db', some session'⟩
  | exit {s session w result db'} : s.session = some session →
      (sampwrite w newoffset (newoff session) w.fuel session.ms 0).run s.db =
        some (result, db') →
      SampStep s (.exit w) ⟨db', none⟩

/-! ## What the user keeps to -/

/-- The session has two more numbers, one for the file and one for a creation that fails. -/
def NumbersLeft (db : Db) (ms : DbfsStore) : Prop :=
  ∃ dfd : FsinfoData, db.lookup .fsinfo = some dfd ∧
    ms.lastInode.toNat + 1 < dfd.dfdLastino.toNat

/-- Texts go to files, not to directories nor to the file with the saved offset, and end in
front of the last place that nine digits can tell.  Files fit into the buffer that they are
read into. -/
def Command.Disciplined (db : Db) (session : Session) : Command → Prop
  | .write _ path buf =>
      WellFormed path.text ∧ path.text ≠ newoffset ∧ NumbersLeft db session.ms ∧
        (∀ ddd, db.lookup (.dentry path.text) = some ddd → IsData ddd.dddType) ∧
        session.place + buf.text.length < 10 ^ 9
  | .mkdir _ _ path => WellFormed path.text ∧ path.text ≠ newoffset ∧ NumbersLeft db session.ms
  | .read _ _ _ path =>
      ∀ ddd, db.lookup (.dentry path.text) = some ddd → ddd.dddSize.toNat ≤ 30
  | .getattr _ _ _ _ | .help => True

/-- There is memory and an environment to read the saved offset with, and memory to save it. -/
def SampEvent.Disciplined (s : SampSys) : SampEvent → Prop
  | .start initHeap openHeap readHeap _ => openHeap.ok = true ∧ readHeap.envOpens = true ∧
      (FuseEvent.mangooInitstore initHeap 0).Disciplined ⟨s.db, none, fun _ => none⟩
  | .command cmd => ∀ session, s.session = some session → cmd.Disciplined s.db session
  | .exit w => (∀ round, (w.openHeap round).ok = true ∧ (w.createHeap round).ok = true) ∧
      ∀ session, s.session = some session → NumbersLeft s.db session.ms

/-- A step of the program whose event the user may cause. -/
def DisciplinedSampStep (s : SampSys) (event : SampEvent) (s' : SampSys) : Prop :=
  event.Disciplined s ∧ SampStep s event s'

end Mangoo.Samp
