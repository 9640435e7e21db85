import Mangoo.Fuse.FileSystem

/-!
# Stores that represent a file system

Each file has an inode number of its own and its known bytes are those of the blocks with
that number.  An open file has a handle whose copy of the record is the stored one.  A call
changes one path or one open file, and what represented the file system before represents
the changed one.
-/

namespace Mangoo.Fuse

open Mangoo.Foundation Mangoo.Dbfs

/-! ## What represents a file system -/

structure OnDisk (number : CStr → UInt64) (A : FileSystem) (db : Db) : Prop where
  wf : BlocksWF db
  record : ∀ path, db.lookup (.dentry path) =
    (A.node path).map fun node => node.attrs.record (number path)
  bytes : ∀ path node, A.node path = some node → node.attrs.type = .data →
    node.bytes.Le (content db (number path))
  paths : ∀ path node, A.node path = some node → WellFormed path
  distinct : ∀ path path', A.IsFile path → A.IsFile path' → number path = number path' →
    path = path'

def fileHandle (number : CStr → UInt64) (path : CStr) (node : FileNode) : DbfsHandle :=
  initHandle path (node.attrs.record (number path))

structure Represents (number : CStr → UInt64) (A : FileSystem) (s : Sys) : Prop where
  disk : OnDisk number A s.db
  reserved : ∃ dfd : FsinfoData, s.db.lookup .fsinfo = some dfd ∧
    ∀ path, A.IsFile path → (number path).toNat < dfd.dfdLastino.toNat
  fresh : ∀ dsp, s.store = some dsp → ∀ path, A.IsFile path →
    (number path).toNat < dsp.lastInode.toNat
  handles : ∀ fi, s.handles fi =
    (A.opened fi).bind fun path => (A.node path).map (fileHandle number path)
  served : ∀ fi path, A.opened fi = some path → A.IsFile path

def NotOpen (s : Sys) (path : CStr) : Prop :=
  ∀ fi dh, s.handles fi = some dh → dh.locator ≠ path

variable {number : CStr → UInt64} {A : FileSystem} {s : Sys} {db db' : Db} {heap : Heap}
  {path : CStr} {node : FileNode} {dsp : DbfsStore}

/-! ## Nodes and records -/

@[simp] theorem FileSystem.set_node_self (A : FileSystem) (path : CStr)
    (node : Option FileNode) : (A.set path node).node path = node := by
  simp [FileSystem.set]

theorem FileSystem.set_node_of_ne (A : FileSystem) {path other : CStr}
    (node : Option FileNode) (h : other ≠ path) :
    (A.set path node).node other = A.node other := by
  simp [FileSystem.set, h]

@[simp] theorem FileSystem.set_opened (A : FileSystem) (path : CStr)
    (node : Option FileNode) : (A.set path node).opened = A.opened := rfl

@[simp] theorem FileSystem.setOpened_node (A : FileSystem) (fi : Nat) (path : Option CStr) :
    (A.setOpened fi path).node = A.node := rfl

theorem FileSystem.set_self {node : Option FileNode} (h : A.node path = node) :
    A.set path node = A := by
  rw [FileSystem.set, ← h, Function.update_eq_self]

theorem FileSystem.isFile_set_of_ne {other : CStr} (node : Option FileNode)
    (h : other ≠ path) : (A.set path node).IsFile other ↔ A.IsFile other := by
  rw [FileSystem.IsFile, FileSystem.set_node_of_ne A node h, FileSystem.IsFile]

theorem OnDisk.lookup_some (h : OnDisk number A db) (hnode : A.node path = some node) :
    db.lookup (.dentry path) = some (node.attrs.record (number path)) := by
  rw [h.record, hnode]
  rfl

theorem OnDisk.lookup_none (h : OnDisk number A db) (hnode : A.node path = none) :
    db.lookup (.dentry path) = none := by
  rw [h.record, hnode]
  rfl

theorem OnDisk.node_of_lookup (h : OnDisk number A db) {ddd : DentryData}
    (hlookup : db.lookup (.dentry path) = some ddd) :
    ∃ node, A.node path = some node ∧ ddd = node.attrs.record (number path) := by
  rw [h.record, Option.map_eq_some_iff] at hlookup
  obtain ⟨node, hnode, rfl⟩ := hlookup
  exact ⟨node, hnode, rfl⟩

theorem OnDisk.mem_iff (h : OnDisk number A db) : Key.dentry path ∈ db ↔ A.node path ≠ none := by
  rw [Finmap.mem_iff, h.record]
  cases A.node path <;> simp

theorem OnDisk.wellFormedPaths (h : OnDisk number A db) : WellFormedPaths db := by
  intro path hpath
  obtain ⟨node, hnode⟩ := Option.ne_none_iff_exists'.mp (h.mem_iff.mp hpath)
  exact h.paths path node hnode

theorem fileHandle_update_of_ne {other : CStr} {n : UInt64} (h : other ≠ path) :
    fileHandle (Function.update number path n) other = fileHandle number other := by
  funext node
  rw [fileHandle, Function.update_of_ne h, fileHandle]

theorem isData_record {a : Attrs} {ino : UInt64} :
    IsData (a.record ino).dddType ↔ a.type = .data := by
  rw [IsData, ofUInt32?_record, Option.some_inj]

theorem isContainer_record {a : Attrs} {ino : UInt64} :
    IsContainer (a.record ino).dddType ↔ a.type = .container := by
  rw [IsContainer, ofUInt32?_record, Option.some_inj]

/-! ## Changing one path -/

theorem OnDisk.change {changed : Option FileNode} {n : UInt64} (h : OnDisk number A db)
    (hwf : BlocksWF db')
    (hself : db'.lookup (.dentry path) = changed.map fun node => node.attrs.record n)
    (hother : ∀ other, other ≠ path →
      db'.lookup (.dentry other) = db.lookup (.dentry other))
    (hcontent : ∀ other, other ≠ path → A.IsFile other →
      content db' (number other) = content db (number other))
    (hbytes : ∀ node, changed = some node → node.attrs.type = .data →
      node.bytes.Le (content db' n))
    (hnumber : ∀ node, changed = some node → node.attrs.type = .data →
      ∀ other, other ≠ path → A.IsFile other → number other ≠ n)
    (hpath : changed ≠ none → WellFormed path) :
    OnDisk (Function.update number path n) (A.set path changed) db' where
  wf := hwf
  record other := by
    by_cases hne : other = path
    · subst hne
      rw [hself, FileSystem.set_node_self, Function.update_self]
    · rw [hother other hne, FileSystem.set_node_of_ne A changed hne,
        Function.update_of_ne hne, h.record]
  bytes other node hnode htype := by
    by_cases hne : other = path
    · subst hne
      rw [FileSystem.set_node_self] at hnode
      rw [Function.update_self]
      exact hbytes node hnode htype
    · rw [FileSystem.set_node_of_ne A changed hne] at hnode
      rw [Function.update_of_ne hne, hcontent other hne ⟨node, hnode, htype⟩]
      exact h.bytes other node hnode htype
  paths other node hnode := by
    by_cases hne : other = path
    · subst hne
      rw [FileSystem.set_node_self] at hnode
      exact hpath (by rw [hnode]; exact Option.some_ne_none node)
    · rw [FileSystem.set_node_of_ne A changed hne] at hnode
      exact h.paths other node hnode
  distinct := by
    have hself : ∀ other, other ≠ path → (A.set path changed).IsFile path →
        (A.set path changed).IsFile other → number other ≠ n := by
      rintro other hne ⟨node, hnode, htype⟩ hfile
      rw [FileSystem.set_node_self] at hnode
      exact hnumber node hnode htype other hne
        ((FileSystem.isFile_set_of_ne changed hne).mp hfile)
    intro first second hfirst hsecond heq
    by_cases hf : first = path
    · by_cases hs : second = path
      · rw [hf, hs]
      · rw [hf, Function.update_self, Function.update_of_ne hs] at heq
        rw [hf] at hfirst
        exact absurd heq.symm (hself second hs hfirst hsecond)
    · by_cases hs : second = path
      · rw [hs, Function.update_self, Function.update_of_ne hf] at heq
        rw [hs] at hsecond
        exact absurd heq (hself first hf hsecond hfirst)
      · rw [Function.update_of_ne hf, Function.update_of_ne hs] at heq
        exact h.distinct first second
          ((FileSystem.isFile_set_of_ne changed hf).mp hfirst)
          ((FileSystem.isFile_set_of_ne changed hs).mp hsecond) heq

theorem OnDisk.insert_record {changed : FileNode} {n : UInt64} (h : OnDisk number A db)
    (hpath : WellFormed path)
    (hbytes : changed.attrs.type = .data → changed.bytes.Le (content db n))
    (hnumber : changed.attrs.type = .data →
      ∀ other, other ≠ path → A.IsFile other → number other ≠ n) :
    OnDisk (Function.update number path n) (A.set path (some changed))
      (db.insert (.dentry path) (changed.attrs.record n)) := by
  apply h.change (h.wf.insert_dentry _ _) (Finmap.lookup_insert db)
  · intro other hne
    exact Finmap.lookup_insert_of_ne _ (by simpa using hne)
  · intro other hne hfile
    exact content_insert_dentry _ _ _ _
  · intro node hnode htype
    cases hnode
    rw [content_insert_dentry]
    exact hbytes htype
  · intro node hnode htype
    cases hnode
    exact hnumber htype
  · intro _
    exact hpath

theorem OnDisk.erase_record (h : OnDisk number A db) :
    OnDisk number (A.set path none) (db.erase (.dentry path)) := by
  have hlookup : ∀ key, key ≠ Key.dentry path →
      (db.erase (.dentry path)).lookup key = db.lookup key :=
    fun key hne => Finmap.lookup_erase_ne hne
  have hdisk := @OnDisk.change number A db (db.erase (.dentry path)) path none (number path) h
    (h.wf.of_lookup fun ino offset record hrecord => by
      rwa [hlookup _ (by simp)] at hrecord)
    (Finmap.lookup_erase _ _) (fun other hne => hlookup _ (by simpa using hne))
    (fun other hne hfile => content_congr fun offset => hlookup _ (by simp))
    (fun node hnode => by cases hnode) (fun node hnode => by cases hnode)
    (fun hnone => absurd rfl hnone)
  rwa [Function.update_eq_self] at hdisk

theorem OnDisk.insert_fsinfo (h : OnDisk number A db) (dfd : FsinfoData) :
    OnDisk number A (db.insert .fsinfo dfd) where
  wf := by
    apply h.wf.of_lookup
    intro ino offset record hrecord
    rwa [Finmap.lookup_insert_of_ne _ (by simp)] at hrecord
  record other := by rw [Finmap.lookup_insert_of_ne _ (by simp), h.record]
  bytes other node hnode hdata := by
    have hcontent : content (db.insert .fsinfo dfd) (number other) = content db (number other) :=
      content_congr fun _ => Finmap.lookup_insert_of_ne _ (by simp)
    rw [hcontent]
    exact h.bytes other node hnode hdata
  paths := h.paths
  distinct := h.distinct

theorem OnDisk.of_opened (h : OnDisk number A db) (opened : Nat → Option CStr) :
    OnDisk number { A with opened := opened } db :=
  ⟨h.wf, h.record, h.bytes, h.paths, h.distinct⟩

/-! ## Changing the server -/

theorem Represents.handle_of_opened (h : Represents number A s) {fi : Nat}
    (hopened : A.opened fi = some path) (hnode : A.node path = some node) :
    s.handles fi = some (fileHandle number path node) := by
  rw [h.handles, hopened, Option.bind_some, hnode, Option.map_some]

theorem Represents.opened_of_handle (h : Represents number A s) {fi : Nat} {dh : DbfsHandle}
    (hfi : s.handles fi = some dh) :
    ∃ path node, A.opened fi = some path ∧ A.node path = some node ∧
      node.attrs.type = .data ∧ dh = fileHandle number path node := by
  rw [h.handles, Option.bind_eq_some_iff] at hfi
  obtain ⟨path, hopened, hfi⟩ := hfi
  obtain ⟨node, hnode, rfl⟩ := Option.map_eq_some_iff.mp hfi
  obtain ⟨node', hnode', htype⟩ := h.served fi path hopened
  obtain rfl : node' = node := Option.some.inj (hnode'.symm.trans hnode)
  exact ⟨path, node', hopened, hnode, htype, rfl⟩

theorem Represents.opened_none (h : Represents number A s) {fi : Nat}
    (hfi : s.handles fi = none) : A.opened fi = none := by
  cases hopened : A.opened fi with
  | none => rfl
  | some path =>
      obtain ⟨node, hnode, -⟩ := h.served fi path hopened
      rw [h.handle_of_opened hopened hnode] at hfi
      cases hfi

theorem Represents.not_opened (h : Represents number A s) (hopen : NotOpen s path) (fi : Nat) :
    A.opened fi ≠ some path := by
  intro hopened
  obtain ⟨node, hnode, -⟩ := h.served fi path hopened
  exact hopen fi _ (h.handle_of_opened hopened hnode) rfl

theorem Represents.number_lt (h : Represents number A s) (hstore : s.store = some dsp)
    (hfile : A.IsFile path) : (number path).toNat < dsp.lastInode.toNat ∧
      ∀ dfd : FsinfoData, s.db.lookup .fsinfo = some dfd →
        (number path).toNat < dfd.dfdLastino.toNat := by
  obtain ⟨dfd, hlookup, hbelow⟩ := h.reserved
  refine ⟨h.fresh dsp hstore path hfile, fun dfd' hlookup' => ?_⟩
  cases hlookup.symm.trans hlookup'
  exact hbelow path hfile

theorem Represents.of_store (h : Represents number A s) (hstore : s.store = some dsp) :
    Represents number A ⟨s.db, some dsp, s.handles⟩ := by
  rw [← hstore]
  exact h

theorem Represents.change {changed : Option FileNode} {n : UInt64} {dsp' : DbfsStore}
    {files' : OpenFiles} (h : Represents number A s) (hstore : s.store = some dsp)
    (hdisk : OnDisk (Function.update number path n) (A.set path changed) db')
    (hfsinfo : db'.lookup .fsinfo = s.db.lookup .fsinfo)
    (hlast : dsp.lastInode.toNat ≤ dsp'.lastInode.toNat)
    (hnumber : ∀ node, changed = some node → node.attrs.type = .data →
      n.toNat < dsp'.lastInode.toNat ∧
        ∀ dfd : FsinfoData, s.db.lookup .fsinfo = some dfd → n.toNat < dfd.dfdLastino.toNat)
    (hfiles : ∀ fi, files' fi = if A.opened fi = some path then
      changed.map (fileHandle (Function.update number path n) path) else s.handles fi)
    (hserved : ∀ fi, A.opened fi = some path →
      ∃ node, changed = some node ∧ node.attrs.type = .data) :
    Represents (Function.update number path n) (A.set path changed)
      ⟨db', some dsp', files'⟩ where
  disk := hdisk
  reserved := by
    obtain ⟨dfd, hlookup, hbelow⟩ := h.reserved
    refine ⟨dfd, hfsinfo.trans hlookup, fun other hfile => ?_⟩
    by_cases hne : other = path
    · subst hne
      obtain ⟨node, hnode, htype⟩ := hfile
      rw [FileSystem.set_node_self] at hnode
      rw [Function.update_self]
      exact (hnumber node hnode htype).2 dfd hlookup
    · rw [Function.update_of_ne hne]
      exact hbelow other ((FileSystem.isFile_set_of_ne changed hne).mp hfile)
  fresh := by
    intro dsp₁ hdsp other hfile
    cases hdsp
    by_cases hne : other = path
    · subst hne
      obtain ⟨node, hnode, htype⟩ := hfile
      rw [FileSystem.set_node_self] at hnode
      rw [Function.update_self]
      exact (hnumber node hnode htype).1
    · rw [Function.update_of_ne hne]
      have hbelow := h.fresh dsp hstore other ((FileSystem.isFile_set_of_ne changed hne).mp hfile)
      omega
  handles fi := by
    change files' fi = _
    rw [FileSystem.set_opened, hfiles]
    split
    · rename_i hopened
      rw [hopened, Option.bind_some, FileSystem.set_node_self]
    · rename_i hopened
      rw [h.handles]
      cases hother : A.opened fi with
      | none => rfl
      | some other =>
          have hne : other ≠ path := fun heq => hopened (by rw [hother, heq])
          rw [Option.bind_some, Option.bind_some, FileSystem.set_node_of_ne A changed hne,
            fileHandle_update_of_ne hne]
  served fi other hopened := by
    rw [FileSystem.set_opened] at hopened
    by_cases hne : other = path
    · subst hne
      obtain ⟨node, hnode, htype⟩ := hserved fi hopened
      exact ⟨node, by rw [FileSystem.set_node_self, hnode], htype⟩
    · exact (FileSystem.isFile_set_of_ne changed hne).mpr (h.served fi other hopened)

theorem Represents.change_unopened {changed : Option FileNode} {n : UInt64} {dsp' : DbfsStore}
    (h : Represents number A s) (hstore : s.store = some dsp)
    (hdisk : OnDisk (Function.update number path n) (A.set path changed) db')
    (hfsinfo : db'.lookup .fsinfo = s.db.lookup .fsinfo)
    (hlast : dsp.lastInode.toNat ≤ dsp'.lastInode.toNat)
    (hnumber : ∀ node, changed = some node → node.attrs.type = .data →
      n.toNat < dsp'.lastInode.toNat ∧
        ∀ dfd : FsinfoData, s.db.lookup .fsinfo = some dfd → n.toNat < dfd.dfdLastino.toNat)
    (hopen : ∀ fi, A.opened fi ≠ some path) :
    Represents (Function.update number path n) (A.set path changed)
      ⟨db', some dsp', s.handles⟩ := by
  apply h.change hstore hdisk hfsinfo hlast hnumber
  · intro fi
    rw [if_neg (hopen fi)]
  · intro fi hopened
    exact absurd hopened (hopen fi)

theorem Represents.setOpened (h : Represents number A s) (fi : Nat) (opened : Option CStr)
    (fh : Option DbfsHandle) (hfile : ∀ path, opened = some path → A.IsFile path)
    (hfh : fh = opened.bind fun path => (A.node path).map (fileHandle number path)) :
    Represents number (A.setOpened fi opened)
      ⟨s.db, s.store, Function.update s.handles fi fh⟩ where
  disk := h.disk.of_opened _
  reserved := h.reserved
  fresh := h.fresh
  handles fi' := by
    change Function.update s.handles fi fh fi' =
      (Function.update A.opened fi opened fi').bind _
    by_cases hfi : fi' = fi
    · rw [hfi, Function.update_self, Function.update_self, hfh]
      rfl
    · rw [Function.update_of_ne hfi, Function.update_of_ne hfi, h.handles]
      rfl
  served fi' path hopened := by
    change Function.update A.opened fi opened fi' = some path at hopened
    by_cases hfi : fi' = fi
    · rw [hfi, Function.update_self] at hopened
      exact hfile path hopened
    · rw [Function.update_of_ne hfi] at hopened
      exact h.served fi' path hopened

end Mangoo.Fuse
