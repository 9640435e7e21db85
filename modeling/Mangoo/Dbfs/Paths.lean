import Mangoo.Dbfs.Listing

/-!
# Paths

Parents, names and children of paths, and which keys a scan of a directory takes
for its entries.  The scan compares the directory's path as text, so it takes two
kinds of key: the children, and the paths that continue the directory's own last
component.
-/

namespace Mangoo.Dbfs

open Mangoo.Foundation

def frontBytes (bytes : List UInt8) : List UInt8 :=
  ((bytes.reverse.dropWhile (· ≠ slash)).drop 1).reverse

def lastBytes (bytes : List UInt8) : List UInt8 :=
  (bytes.reverse.takeWhile (· ≠ slash)).reverse

theorem length_frontBytes (bytes : List UInt8) :
    (frontBytes bytes).length ≤ bytes.length - 1 := by
  have hle := (List.dropWhile_sublist (· ≠ slash) (l := bytes.reverse)).length_le
  rw [List.length_reverse] at hle
  simp only [frontBytes, List.length_reverse, List.length_drop]
  omega

theorem mem_of_mem_frontBytes {bytes : List UInt8} {byte : UInt8}
    (h : byte ∈ frontBytes bytes) : byte ∈ bytes := by
  have hmem := List.mem_of_mem_drop (List.mem_reverse.mp h)
  exact List.mem_reverse.mp ((List.dropWhile_sublist _).mem hmem)

theorem mem_of_mem_lastBytes {bytes : List UInt8} {byte : UInt8}
    (h : byte ∈ lastBytes bytes) : byte ∈ bytes := by
  exact List.mem_reverse.mp ((List.takeWhile_sublist _).mem (List.mem_reverse.mp h))

/-- The parent of an entry, `"/"` if nothing is in front of its last slash. -/
def parentPath (path : CStr) : CStr :=
  if frontBytes path.bytes = [] then rootPath
  else ⟨frontBytes path.bytes, fun h => path.nul_free (mem_of_mem_frontBytes h)⟩

def lastComponent (path : CStr) : CStr :=
  ⟨lastBytes path.bytes, fun h => path.nul_free (mem_of_mem_lastBytes h)⟩

/-- `"/"`, or a slash in front of one or more components that are not empty. -/
def WellFormed (path : CStr) : Prop :=
  path = rootPath ∨
    path.bytes.head? = some slash ∧ ∀ component ∈ path.bytes.tail.splitOn slash, component ≠ []

def WellFormedPaths (db : Db) : Prop := ∀ path, Key.dentry path ∈ db → WellFormed path

def IsChild (locator path : CStr) : Prop := path ≠ rootPath ∧ parentPath path = locator

/-- The path continues the last component of `locator`. -/
def ExtendsName (locator path : CStr) : Prop :=
  locator ≠ rootPath ∧
    ∃ rest, rest ≠ [] ∧ slash ∉ rest ∧ path.bytes = locator.bytes ++ rest

def dirBytes (locator : CStr) : List UInt8 :=
  if locator = rootPath then [] else locator.bytes

variable {path locator : CStr} {front last rest : List UInt8}

/-! ## The last slash -/

theorem exists_last_slash {bytes : List UInt8} (h : slash ∈ bytes) :
    ∃ front last, bytes = front ++ slash :: last ∧ slash ∉ last := by
  obtain ⟨last, front, hreverse, hlast⟩ :=
    List.eq_append_cons_of_mem (List.mem_reverse.mpr h)
  refine ⟨front.reverse, last.reverse, ?_, by simpa using hlast⟩
  have hbytes := congrArg List.reverse hreverse
  simpa using hbytes

theorem ne_slash_of_notMem_reverse (h : slash ∉ last) :
    ∀ byte ∈ last.reverse, decide (byte ≠ slash) = true := by
  intro byte hbyte
  rw [decide_eq_true_eq]
  rintro rfl
  exact h (List.mem_reverse.mp hbyte)

theorem frontBytes_append (front : List UInt8) (h : slash ∉ last) :
    frontBytes (front ++ slash :: last) = front := by
  have hreverse : (front ++ slash :: last).reverse =
      last.reverse ++ slash :: front.reverse := by simp
  rw [frontBytes, hreverse, List.dropWhile_append_of_pos (ne_slash_of_notMem_reverse h)]
  simp

theorem lastBytes_append (front : List UInt8) (h : slash ∉ last) :
    lastBytes (front ++ slash :: last) = last := by
  have hreverse : (front ++ slash :: last).reverse =
      last.reverse ++ slash :: front.reverse := by simp
  rw [lastBytes, hreverse, List.takeWhile_append_of_pos (ne_slash_of_notMem_reverse h)]
  simp

theorem parentPath_ne {path : CStr} (h : path ≠ rootPath) : parentPath path ≠ path := by
  intro heq
  unfold parentPath at heq
  split at heq
  · exact h heq.symm
  · rename_i hfront
    have hbytes : frontBytes path.bytes = path.bytes := congrArg CStr.bytes heq
    have hlength := length_frontBytes path.bytes
    rw [hbytes] at hlength hfront
    apply hfront
    apply List.eq_nil_of_length_eq_zero
    omega

/-! ## Well-formed paths -/

instance (path : CStr) : Decidable (WellFormed path) :=
  inferInstanceAs (Decidable (_ ∨ _))

theorem starts_with_letter (h : ∀ component ∈ rest.splitOn slash, component ≠ []) :
    ∃ byte more, rest = byte :: more ∧ byte ≠ slash := by
  cases rest with
  | nil => exact absurd rfl (h [] (by simp))
  | cons byte more =>
      refine ⟨byte, more, rfl, ?_⟩
      rintro rfl
      have hempty : [] ∈ ([] ++ slash :: more).splitOn slash := by
        rw [List.splitOn_append_cons_self]
        simp
      exact h [] hempty rfl

theorem WellFormed.head (h : WellFormed path) : path.bytes.head? = some slash := by
  rcases h with rfl | ⟨hhead, -⟩
  · rfl
  · exact hhead

theorem WellFormed.behind_slash (h : WellFormed path) (hroot : path ≠ rootPath)
    (hbytes : path.bytes = front ++ slash :: rest) :
    ∃ byte more, rest = byte :: more ∧ byte ≠ slash := by
  obtain rfl | ⟨hhead, hcomponents⟩ := h
  · exact absurd rfl hroot
  · apply starts_with_letter
    intro component hmem
    apply hcomponents
    rw [hbytes]
    cases front with
    | nil => exact hmem
    | cons byte front =>
        rw [List.cons_append, List.tail_cons, List.splitOn_append_cons_self]
        exact List.mem_append_right _ hmem

theorem WellFormed.absolute (h : WellFormed path) : Absolute path := by
  refine ⟨h.head, ?_⟩
  by_cases hroot : path = rootPath
  · rw [hroot]
    decide
  · obtain ⟨rest, hbytes⟩ := List.head?_eq_some_iff.mp h.head
    have hfirst : path.bytes = [] ++ slash :: rest := hbytes
    obtain ⟨byte, more, rfl, hbyte⟩ := h.behind_slash hroot hfirst
    rw [hbytes]
    simpa using hbyte

theorem WellFormedPaths.absolutePaths {db : Db} (h : WellFormedPaths db) :
    AbsolutePaths db := fun path hpath => (h path hpath).absolute

theorem WellFormed.ne_nil (h : WellFormed path) : path.bytes ≠ [] := by
  intro hnil
  have hhead := h.head
  rw [hnil] at hhead
  cases hhead

theorem dirBytes_rootPath : dirBytes rootPath = [] := if_pos rfl

theorem dirBytes_of_ne (h : locator ≠ rootPath) : dirBytes locator = locator.bytes := if_neg h

theorem dirBytes_parentPath (h : frontBytes path.bytes ≠ rootPath.bytes) :
    dirBytes (parentPath path) = frontBytes path.bytes := by
  by_cases hfront : frontBytes path.bytes = []
  · rw [parentPath, if_pos hfront, dirBytes_rootPath, hfront]
  · rw [parentPath, if_neg hfront]
    apply dirBytes_of_ne
    intro heq
    exact h (congrArg CStr.bytes heq)

theorem parentPath_of_frontBytes (hlocator : WellFormed locator)
    (h : frontBytes path.bytes = dirBytes locator) : parentPath path = locator := by
  by_cases hroot : locator = rootPath
  · rw [parentPath, if_pos (by rw [h, hroot, dirBytes_rootPath]), hroot]
  · rw [dirBytes_of_ne hroot] at h
    apply CStr.ext
    rw [parentPath, if_neg (by rw [h]; exact hlocator.ne_nil)]
    exact h

theorem isChild_iff (hpath : WellFormed path) (hlocator : WellFormed locator) :
    IsChild locator path ↔
      ∃ name, name ≠ [] ∧ slash ∉ name ∧ path.bytes = dirBytes locator ++ slash :: name := by
  constructor
  · rintro ⟨hroot, rfl⟩
    have hslash : slash ∈ path.bytes := List.mem_of_head? hpath.head
    obtain ⟨front, name, hbytes, hname⟩ := exists_last_slash hslash
    have hfront : frontBytes path.bytes = front := by
      rw [hbytes, frontBytes_append front hname]
    refine ⟨name, ?_, hname, ?_⟩
    · obtain ⟨byte, more, rfl, -⟩ := hpath.behind_slash hroot hbytes
      simp
    · rw [dirBytes_parentPath, hfront, hbytes]
      rw [hfront]
      rintro rfl
      have hfirst : path.bytes = [] ++ slash :: slash :: name := hbytes
      obtain ⟨byte, more, heq, hbyte⟩ := hpath.behind_slash hroot hfirst
      cases heq
      exact hbyte rfl
  · rintro ⟨name, hne, hname, hbytes⟩
    refine ⟨?_, ?_⟩
    · rintro rfl
      have hlength := congrArg List.length hbytes
      have hpos := List.length_pos_of_ne_nil hne
      simp only [rootPath, List.length_append, List.length_cons, List.length_nil] at hlength
      omega
    · apply parentPath_of_frontBytes hlocator
      rw [hbytes, frontBytes_append _ hname]

theorem lastComponent_of_bytes (h : path.bytes = front ++ slash :: last) (hlast : slash ∉ last) :
    (lastComponent path).bytes = last := by
  change lastBytes path.bytes = last
  rw [h, lastBytes_append front hlast]

theorem IsChild.bytes (h : IsChild locator path) (hpath : WellFormed path)
    (hlocator : WellFormed locator) :
    path.bytes = dirBytes locator ++ slash :: (lastComponent path).bytes := by
  obtain ⟨name, -, hname, hbytes⟩ := (isChild_iff hpath hlocator).mp h
  rw [lastComponent_of_bytes hbytes hname]
  exact hbytes

/-! ## The keys that a scan takes for entries -/

theorem bytes_entryName (h : path.bytes = locator.bytes ++ rest) :
    (entryName locator path).bytes = rest.dropWhile (· == slash) := by
  have hdrop : path.bytes.drop locator.bytes.length = rest := by
    rw [h, List.drop_left]
  change (path.bytes.drop locator.bytes.length).dropWhile (· == slash) = _
  rw [hdrop]

theorem dropWhile_slash_of_letter {byte : UInt8} {more : List UInt8} (h : byte ≠ slash) :
    (byte :: more).dropWhile (· == slash) = byte :: more := by
  simp [h]

theorem dropWhile_slash_of_slash {byte : UInt8} {more : List UInt8} (h : byte ≠ slash) :
    (slash :: byte :: more).dropWhile (· == slash) = byte :: more := by
  simp [h]

theorem entryName_of_isChild (h : IsChild locator path) (hpath : WellFormed path)
    (hlocator : WellFormed locator) : entryName locator path = lastComponent path := by
  obtain ⟨hroot, -⟩ := id h
  have hbytes := h.bytes hpath hlocator
  obtain ⟨byte, more, hname, hbyte⟩ := hpath.behind_slash hroot hbytes
  apply CStr.ext
  rw [hname] at hbytes ⊢
  by_cases hlroot : locator = rootPath
  · subst hlroot
    rw [dirBytes_rootPath] at hbytes
    have hrest : path.bytes = rootPath.bytes ++ byte :: more := hbytes
    rw [bytes_entryName hrest, dropWhile_slash_of_letter hbyte]
  · rw [dirBytes_of_ne hlroot] at hbytes
    rw [bytes_entryName hbytes, dropWhile_slash_of_slash hbyte]

theorem startsWith_of_isChild (h : IsChild locator path) (hpath : WellFormed path)
    (hlocator : WellFormed locator) : path.startsWith locator = true := by
  rw [CStr.startsWith_iff, h.bytes hpath hlocator]
  by_cases hroot : locator = rootPath
  · rw [hroot, dirBytes_rootPath]
    exact ⟨_, rfl⟩
  · rw [dirBytes_of_ne hroot]
    exact List.prefix_append _ _

theorem entryName_of_extends (hslash : slash ∉ rest)
    (h : path.bytes = locator.bytes ++ rest) : (entryName locator path).bytes = rest := by
  rw [bytes_entryName h]
  cases rest with
  | nil => rfl
  | cons byte more =>
      apply dropWhile_slash_of_letter
      rintro rfl
      exact hslash List.mem_cons_self

theorem ne_rootPath_of_slash (hlocator : WellFormed locator)
    (h : path.bytes = locator.bytes ++ slash :: rest) : path ≠ rootPath := by
  rintro rfl
  have hlength := congrArg List.length h
  have hpos := List.length_pos_of_ne_nil hlocator.ne_nil
  simp only [rootPath, List.length_append, List.length_cons, List.length_nil] at hlength
  omega

/-- A scan takes the children for entries, and the paths that continue the name of
the directory itself. -/
theorem isEntryOf_iff (hpath : WellFormed path) (hlocator : WellFormed locator) :
    IsEntryOf locator (.dentry path) ↔ IsChild locator path ∨ ExtendsName locator path := by
  constructor
  · rintro ⟨hstarts, hname, hslash⟩
    obtain ⟨rest, hbytes⟩ := CStr.startsWith_iff.mp hstarts
    have hbytes := hbytes.symm
    rw [CStr.contains, decide_eq_false_iff_not] at hslash
    rw [bytes_entryName hbytes] at hname hslash
    cases rest with
    | nil => exact absurd rfl hname
    | cons byte more =>
        by_cases hbyte : byte = slash
        · -- a slash behind the directory's path begins the name of a child
          subst hbyte
          left
          have hroot : path ≠ rootPath := ne_rootPath_of_slash hlocator hbytes
          have hlroot : locator ≠ rootPath := by
            rintro rfl
            have hfirst : path.bytes = [] ++ slash :: slash :: more := hbytes
            obtain ⟨byte, rest, heq, hbyte⟩ := hpath.behind_slash hroot hfirst
            cases heq
            exact hbyte rfl
          obtain ⟨first, others, rfl, hfirst⟩ := hpath.behind_slash hroot hbytes
          rw [dropWhile_slash_of_slash hfirst] at hname hslash
          apply (isChild_iff hpath hlocator).mpr
          exact ⟨_, hname, hslash, by rw [dirBytes_of_ne hlroot, hbytes]⟩
        · rw [dropWhile_slash_of_letter hbyte] at hname hslash
          by_cases hlroot : locator = rootPath
          · subst hlroot
            left
            apply (isChild_iff hpath hlocator).mpr
            exact ⟨_, hname, hslash, by rw [dirBytes_rootPath, hbytes]; rfl⟩
          · exact .inr ⟨hlroot, _, hname, hslash, hbytes⟩
  · rintro (hchild | ⟨hroot, rest, hne, hslash, hbytes⟩)
    · obtain ⟨name, hne, hname, hbytes⟩ := (isChild_iff hpath hlocator).mp hchild
      refine ⟨startsWith_of_isChild hchild hpath hlocator, ?_⟩
      rw [entryName_of_isChild hchild hpath hlocator, CStr.contains, decide_eq_false_iff_not,
        lastComponent_of_bytes hbytes hname]
      exact ⟨hne, hname⟩
    · have hentry : (entryName locator path).bytes = rest := entryName_of_extends hslash hbytes
      refine ⟨?_, ?_⟩
      · rw [CStr.startsWith_iff, hbytes]
        exact List.prefix_append _ _
      · rw [CStr.contains, decide_eq_false_iff_not, hentry]
        exact ⟨hne, hslash⟩

end Mangoo.Dbfs
