import Tyleros.Fat.Layout
import Mathlib.Order.MinMax
import Mathlib.Data.Nat.Find

/-!
# Which paths `resolve_path` resolves

`read_next_fragment` looks for separators in the whole remaining path, does not step over
the `/` it stops at, and asserts that it has come to the dot if there is one. A directory is
entered by searching on behind its entry. `resolves_iff` says for which paths and root
directories `resolve_path` nevertheless returns the named file or null, and only looks at
entries of the root directory.
-/

namespace Tyleros.Fat

/-- `'/'`. -/
def SLASH : UInt8 := 0x2F

/-- `'.'`. -/
def DOT : UInt8 := 0x2E

/-- `directory_entry::VOLUME_ID`, which is set in a part of a long name, too. -/
def VOLUME_ID : UInt8 := 0x08

/-- `entry` is a file: neither a directory nor a label nor a deleted entry. -/
def DirectoryEntry.IsFile (entry : DirectoryEntry) : Prop :=
  entry.attributes &&& DIRECTORY = 0 ∧ entry.attributes &&& VOLUME_ID = 0 ∧
    entry.name.head? ≠ some 0xE5

/-- A name and an extension as the `short_file_full_name` of an entry. -/
def shortFileFullName (name extension : List UInt8) : List UInt8 :=
  (name.map toupper).rightpad 8 0x20 ++ (extension.map toupper).rightpad 3 0x20

/-- The path names the file: it is `/name` or `/name.extension`. The entries of the root
directory say nothing about files in other directories. -/
structure Names (path : List UInt8) (entry : DirectoryEntry) : Prop where
  isFile : entry.IsFile
  named : ∃ name extension, name ≠ [] ∧ name.length ≤ 8 ∧ extension.length ≤ 3 ∧
    SLASH ∉ name ∧ DOT ∉ name ∧ SLASH ∉ extension ∧
    (path = SLASH :: name ∧ extension = [] ∨ path = SLASH :: (name ++ DOT :: extension)) ∧
    entry.name = shortFileFullName name extension

/-- The characters of a C string, without the null byte at its end. -/
abbrev CString := { path : List UInt8 // (0 : UInt8) ∉ path }

/-- The file system with these bytes from `root_dir` on. -/
def ofMemory (bpb : Bpb) (bytes : Nat → UInt8) : FileSystem :=
  ⟨bpb, fun i => DirectoryEntry.ofBytes bytes (DIRECTORY_ENTRY_SIZE * i)⟩

/-- The indices of the entries that `searchDirectory` looks at. -/
def scanned (fs : FileSystem) (path : List UInt8) : Nat → Nat → Nat → List UInt8 → Nat → List Nat
  | 0, _, _, _, _ => []
  | fuel + 1, directory, i, fragment, rest =>
    if i < fs.bpb.numOfDirectoryEntries.toNat then
      let entry := fs.rootDir (directory + i)
      (directory + i) ::
        if strncmpEq entry.name fragment then
          if charAt path rest == 0 ∨ entry.attributes &&& DIRECTORY = 0 then []
          else match readNextFragment path rest with
            | .ok (fragment, rest) => scanned fs path fuel (directory + i) 1 fragment rest
            | .error _ => []
        else scanned fs path fuel directory (i + 1) fragment rest
    else []

/-- The search returns a file that the path names, or null, and all entries it looks at
are entries of the root directory. -/
structure SearchOk (fs : FileSystem) (path : List UInt8) (fuel directory i : Nat)
    (fragment : List UInt8) (rest : Nat) : Prop where
  returns : ∃ fileEntry, searchDirectory fs path fuel directory i fragment rest = .ok fileEntry ∧
    ∀ entry, fileEntry = some entry → Names path entry
  inside : ∀ k ∈ scanned fs path fuel directory i fragment rest,
    k < fs.bpb.numOfDirectoryEntries.toNat

/-- The indices of the entries that `resolvePath` looks at. -/
def scannedEntries (fs : FileSystem) (path : List UInt8) : List Nat :=
  match readNextFragment path 1 with
  | .ok (fragment, rest) => scanned fs path (2 ^ 96) 0 0 fragment rest
  | .error _ => []

/-- The same for `resolve_path`: it completes with a file that the path names, or with
null, and stays inside the root directory. -/
structure Resolves (fs : FileSystem) (path : List UInt8) : Prop where
  returns : ∃ fileEntry, resolvePath fs path = .ok fileEntry ∧
    ∀ entry, fileEntry = some entry → Names path entry
  inside : ∀ k ∈ scannedEntries fs path, k < fs.bpb.numOfDirectoryEntries.toNat

/-- Then `read_file` returns null or reads the clusters of a file that the path names. -/
theorem Resolves.readFile {fs : FileSystem} {path : List UInt8} (resolves : Resolves fs path)
    (disk : Disk) (fat memory : Nat → UInt8) (behind : Nat) :
    readFile fs disk fat memory behind path = .ok none ∨
      ∃ entry, Names path entry ∧ readFile fs disk fat memory behind path =
        (readClusters fs.bpb disk entry.size.toNat behind (maxClusters entry.size.toNat behind)
          ⟨0, entry.clusterNumLo.toNat, 0, fat, memory⟩ >>= fun r =>
            .ok (if entry.size = 0 then none else some r.buffer)) := by
  obtain ⟨⟨fileEntry, result, names⟩, -⟩ := resolves
  unfold Fat.readFile
  rw [result, ok_bind]
  cases fileEntry with
  | none => exact Or.inl rfl
  | some entry =>
      refine Or.inr ⟨entry, names entry rfl, ?_⟩
      rfl

/-! ## What `read_next_fragment` reads -/

/-- The end of the component at `rest`. -/
def componentEnd (path : List UInt8) (rest : Nat) : Nat := (strchr path rest SLASH).getD path.length

/-- The next dot, if there is one, is in the component and behind at most 8 characters. -/
def Readable (path : List UInt8) (rest : Nat) : Prop :=
  ∀ sep, strchr path rest DOT = some sep → sep ≤ rest + 8 ∧ sep < componentEnd path rest

/-- The end of the name: the dot, or 8 characters. -/
def nameEnd (path : List UInt8) (rest : Nat) : Nat :=
  (strchr path rest DOT).getD (min (componentEnd path rest) (rest + 8))

/-- The start of the extension, behind the dot if there is one. -/
def extensionStart (path : List UInt8) (rest : Nat) : Nat :=
  if (strchr path rest DOT).isSome then nameEnd path rest + 1 else nameEnd path rest

/-- Where `read_next_fragment` stops. -/
def fragmentEnd (path : List UInt8) (rest : Nat) : Nat :=
  min (componentEnd path rest) (extensionStart path rest + 3)

/-- The characters of a path from `start` up to `stop`. -/
def slice (path : List UInt8) (start stop : Nat) : List UInt8 := (path.drop start).take (stop - start)

/-- The fragment at `rest`. -/
def fragmentAt (path : List UInt8) (rest : Nat) : List UInt8 :=
  shortFileFullName (slice path rest (nameEnd path rest))
    (slice path (extensionStart path rest) (fragmentEnd path rest))

section Fragments

variable {path : List UInt8} {rest : Nat}

theorem strchr_none_iff {ch : UInt8} :
    strchr path rest ch = none ↔ ∀ i, rest ≤ i → i < path.length → charAt path i ≠ ch := by
  unfold strchr
  rw [List.find?_eq_none]
  constructor
  · intro none_ i le lt same
    refine none_ i (List.mem_range'_1.mpr ⟨le, by omega⟩) (beq_iff_eq.mpr same)
  · intro none_ i mem same
    obtain ⟨le, lt⟩ := List.mem_range'_1.mp mem
    exact none_ i le (by omega) (beq_iff_eq.mp same)

/-- What `strchr` returns is an occurrence, and the first one. -/
theorem strchr_spec {ch : UInt8} {i : Nat} (found : strchr path rest ch = some i) :
    rest ≤ i ∧ i < path.length ∧ charAt path i = ch := by
  unfold strchr at found
  obtain ⟨le, lt⟩ := List.mem_range'_1.mp (List.mem_of_find?_eq_some found)
  have same := List.find?_some found
  exact ⟨le, by omega, beq_iff_eq.mp same⟩

theorem componentEnd_bounds (le : rest ≤ path.length) :
    rest ≤ componentEnd path rest ∧ componentEnd path rest ≤ path.length := by
  unfold componentEnd
  cases sep : strchr path rest SLASH with
  | none => exact ⟨le, Nat.le_refl _⟩
  | some i =>
      obtain ⟨after, before, -⟩ := strchr_spec sep
      exact ⟨after, Nat.le_of_lt before⟩

/-- Characters are copied up to `limit`, and blanks follow. -/
theorem readChars_eq {stop : Nat → Bool} {limit : Nat} (stops : ∀ r, stop r = decide (limit ≤ r))
    (inside : limit ≤ path.length) (count : Nat) (le : rest ≤ limit) :
    readChars path stop count rest =
      (((slice path rest (min limit (rest + count))).map toupper).rightpad count 0x20,
        min limit (rest + count)) := by
  induction count generalizing rest with
  | zero =>
      rw [readChars, Nat.add_zero, Nat.min_eq_right le, slice, Nat.sub_self, List.take_zero]
      rfl
  | succ count ih =>
      rw [readChars, stops]
      rcases Nat.lt_or_ge rest limit with more | done
      · rw [decide_eq_false (by omega), if_neg Bool.false_ne_true, ih more]
        have ends : min limit (rest + 1 + count) = min limit (rest + (count + 1)) := by omega
        have first : slice path rest (min limit (rest + (count + 1))) =
            charAt path rest :: slice path (rest + 1) (min limit (rest + (count + 1))) := by
          unfold slice
          rw [List.drop_eq_getElem_cons (by omega),
            show min limit (rest + (count + 1)) - rest =
              min limit (rest + (count + 1)) - (rest + 1) + 1 by omega, List.take_succ_cons]
          congr 1
          unfold charAt
          rw [List.getD_eq_getElem?_getD, List.getElem?_eq_getElem (by omega), Option.getD_some]
        rw [ends, first, List.map_cons]
        dsimp only
        unfold List.rightpad
        rw [List.length_cons, Nat.add_sub_add_right, List.cons_append]
      · obtain rfl : limit = rest := by omega
        rw [decide_eq_true done, if_pos rfl, ih le]
        have ends : ∀ c, min limit (limit + c) = limit := fun c => by omega
        have empty : slice path limit limit = [] := by
          rw [slice, Nat.sub_self, List.take_zero]
        rw [ends, ends, empty]
        rfl

/-- Behind the end of a component is a `/`. -/
theorem charAt_componentEnd (before : componentEnd path rest < path.length) :
    charAt path (componentEnd path rest) = SLASH := by
  unfold componentEnd at *
  cases sep : strchr path rest SLASH with
  | none =>
      rw [sep] at before
      exact absurd before (Nat.lt_irrefl _)
  | some i => exact (strchr_spec sep).2.2

/-- The name is read up to the dot or the end of the component, whichever comes first. -/
theorem readName_eq (le : rest ≤ path.length) :
    readChars path (fun r => (strchr path rest DOT).any (· ≤ r) || componentEnd path rest ≤ r) 8
        rest =
      (((slice path rest (min (min ((strchr path rest DOT).getD (componentEnd path rest))
          (componentEnd path rest)) (rest + 8))).map toupper).rightpad 8 0x20,
        min (min ((strchr path rest DOT).getD (componentEnd path rest)) (componentEnd path rest))
          (rest + 8)) := by
  obtain ⟨after, inside⟩ := componentEnd_bounds le
  refine readChars_eq (fun r => ?_) (Nat.le_trans (Nat.min_le_right _ _) inside) 8 ?_
  · cases sep : strchr path rest DOT with
    | none => simp
    | some sep => simp only [Option.any_some, Option.getD_some, min_le_iff, Bool.decide_or]
  · cases sep : strchr path rest DOT with
    | none => simpa using after
    | some sep => exact Nat.le_min.mpr ⟨(strchr_spec sep).1, after⟩

/-- The two parts of `read_next_fragment`. -/
theorem readNextFragment_def (path : List UInt8) (rest : Nat) :
    readNextFragment path rest = (do
      let name := readChars path
        (fun r => (strchr path rest DOT).any (· ≤ r) || componentEnd path rest ≤ r) 8 rest
      kassert ((strchr path rest DOT).all fun sep => charAt path name.2 == DOT && name.2 == sep)
        "did we skip over the dot?"
      let start := if (strchr path rest DOT).isSome then name.2 + 1 else name.2
      let extension := readChars path (fun r => componentEnd path rest ≤ r) 3 start
      return (name.1 ++ extension.1, extension.2)) := rfl

/-- `read_next_fragment` in closed form. -/
theorem readNextFragment_ok (le : rest ≤ path.length) (readable : Readable path rest) :
    readNextFragment path rest = .ok (fragmentAt path rest, fragmentEnd path rest) := by
  obtain ⟨after, inside⟩ := componentEnd_bounds le
  have extension : ∀ start, start ≤ componentEnd path rest →
      readChars path (fun r => componentEnd path rest ≤ r) 3 start =
        (((slice path start (min (componentEnd path rest) (start + 3))).map toupper).rightpad 3 0x20,
          min (componentEnd path rest) (start + 3)) :=
    fun start before => readChars_eq (fun r => rfl) inside 3 before
  rw [readNextFragment_def, readName_eq le]
  unfold fragmentAt fragmentEnd shortFileFullName extensionStart nameEnd
  cases sep : strchr path rest DOT with
  | none =>
      simp only [Option.getD_none, Option.all_none, kassert_true, Option.isSome_none,
        Bool.false_eq_true, if_false, ok_bind, Nat.min_self]
      rw [extension _ (Nat.min_le_left _ _)]
      rfl
  | some sep_ =>
      obtain ⟨reached, component⟩ := readable sep_ sep
      have stop : min (min sep_ (componentEnd path rest)) (rest + 8) = sep_ := by omega
      simp only [Option.getD_some, Option.all_some, Option.isSome_some, if_true, stop,
        (strchr_spec sep).2.2, beq_self_eq_true, Bool.and_self, kassert_true, ok_bind]
      rw [extension _ component]
      rfl

/-- With a dot that is not reached the assertion fails. -/
theorem readNextFragment_error (le : rest ≤ path.length) (unreadable : ¬ Readable path rest) :
    readNextFragment path rest = .error (.assertion "did we skip over the dot?") := by
  obtain ⟨sep_, sep, notReached⟩ : ∃ sep, strchr path rest DOT = some sep ∧
      ¬ (sep ≤ rest + 8 ∧ sep < componentEnd path rest) := by
    by_contra all
    exact unreadable fun sep found => by_contra fun not_ => all ⟨sep, found, not_⟩
  obtain ⟨-, inPath, dot⟩ := strchr_spec sep
  have before : min (min sep_ (componentEnd path rest)) (rest + 8) ≠ sep_ := by
    intro reached
    have end_ : componentEnd path rest = sep_ := by omega
    have slash : charAt path (componentEnd path rest) = SLASH := charAt_componentEnd (by omega)
    rw [end_, dot] at slash
    exact absurd slash (by decide)
  rw [readNextFragment_def, readName_eq le, sep]
  simp only [Option.getD_some, Option.all_some]
  rw [beq_eq_false_iff_ne.mpr before, Bool.and_false]
  rfl

theorem toupper_ne_zero {ch : UInt8} (nonzero : ch ≠ 0) : toupper ch ≠ 0 := by
  have all : ∀ ch : UInt8, ch ≠ 0 → toupper ch ≠ 0 := forall_byte (by decide +kernel)
  exact all ch nonzero

/-- A `short_file_full_name` is 11 characters and holds no null byte, if its parts hold none. -/
theorem shortFileFullName_plain {name extension : List UInt8} (short : name.length ≤ 8)
    (short' : extension.length ≤ 3) (plain : (0 : UInt8) ∉ name) (plain' : (0 : UInt8) ∉ extension) :
    (shortFileFullName name extension).length = 11 ∧
      (0 : UInt8) ∉ shortFileFullName name extension := by
  have part : ∀ (chars : List UInt8) count, (0 : UInt8) ∉ chars →
      (0 : UInt8) ∉ (chars.map toupper).rightpad count 0x20 := by
    intro chars count plain zero
    rcases List.mem_append.mp zero with copied | blank
    · obtain ⟨ch, mem, upper⟩ := List.mem_map.mp copied
      refine toupper_ne_zero (fun zero => plain ?_) upper
      rw [← zero]
      exact mem
    · exact absurd (List.eq_of_mem_replicate blank) (by decide)
  unfold shortFileFullName
  constructor
  · rw [List.length_append, List.length_rightpad, List.length_rightpad, List.length_map,
      List.length_map]
    omega
  · rw [List.mem_append, not_or]
    exact ⟨part _ 8 plain, part _ 3 plain'⟩

/-- A fragment is such a name. -/
theorem fragmentAt_plain (plain : (0 : UInt8) ∉ path) (readable : Readable path rest) :
    (fragmentAt path rest).length = 11 ∧ (0 : UInt8) ∉ fragmentAt path rest := by
  have name : nameEnd path rest ≤ rest + 8 := by
    unfold nameEnd
    cases sep : strchr path rest DOT with
    | none => exact Nat.min_le_right _ _
    | some sep_ => exact (readable sep_ sep).1
  have short : (slice path rest (nameEnd path rest)).length ≤ 8 := by
    rw [slice, List.length_take]
    omega
  have short' : (slice path (extensionStart path rest) (fragmentEnd path rest)).length ≤ 3 := by
    rw [slice, List.length_take]
    unfold fragmentEnd
    omega
  have sub : ∀ start stop, (0 : UInt8) ∉ slice path start stop := fun start stop mem =>
    plain (List.mem_of_mem_drop (List.mem_of_mem_take mem))
  exact shortFileFullName_plain short short' (sub _ _) (sub _ _)

theorem charAt_zero_iff (plain : (0 : UInt8) ∉ path) : charAt path rest = 0 ↔ path.length ≤ rest := by
  unfold charAt
  constructor
  · intro zero
    by_contra inside
    rw [List.getD_eq_getElem?_getD, List.getElem?_eq_getElem (by omega), Option.getD_some] at zero
    rw [← zero] at plain
    exact plain (List.getElem_mem _)
  · intro ends
    rw [List.getD_eq_getElem?_getD, List.getElem?_eq_none ends, Option.getD_none]

theorem fragmentEnd_le (le : rest ≤ path.length) : fragmentEnd path rest ≤ path.length :=
  Nat.le_trans (Nat.min_le_left _ _) (componentEnd_bounds le).2

theorem charAt_append_mem {l : List UInt8} (l' : List UInt8) {i : Nat} (before : i < l.length) :
    charAt (SLASH :: (l ++ l')) (i + 1) ∈ l := by
  unfold charAt
  rw [List.getD_eq_getElem?_getD, List.getElem?_cons_succ, List.getElem?_append_left before,
    List.getElem?_eq_getElem before, Option.getD_some]
  exact List.getElem_mem before

theorem strchr_cons_none {ch : UInt8} {l : List UInt8} (absent : ch ∉ l) :
    strchr (SLASH :: l) 1 ch = none := by
  refine strchr_none_iff.mpr fun i le lt same => absent ?_
  obtain ⟨i, rfl⟩ : ∃ j, i = j + 1 := ⟨i - 1, by omega⟩
  have mem := charAt_append_mem [] (Nat.lt_of_succ_lt_succ lt)
  rwa [List.append_nil, same] at mem

/-- The first separator is the one behind a name without any. -/
theorem strchr_cons_append {ch : UInt8} {name extension : List UInt8} (absent : ch ∉ name) :
    strchr (SLASH :: (name ++ ch :: extension)) 1 ch = some (name.length + 1) := by
  refine List.find?_range'_eq_some.mpr ⟨?_, ?_, fun i le lt => ?_⟩
  · refine beq_iff_eq.mpr ?_
    unfold charAt
    rw [List.getD_eq_getElem?_getD, List.getElem?_cons_succ,
      List.getElem?_append_right (Nat.le_refl _), Nat.sub_self]
    rfl
  · rw [List.mem_range'_1, List.length_cons, List.length_append, List.length_cons]
    omega
  · obtain ⟨i, rfl⟩ : ∃ j, i = j + 1 := ⟨i - 1, by omega⟩
    have mem := charAt_append_mem (ch :: extension) (Nat.lt_of_succ_lt_succ lt)
    rw [Bool.not_eq_true', beq_eq_false_iff_ne]
    exact fun same => absent (same ▸ mem)

/-- A path that names a file is read as a whole. -/
theorem Names.atEnd {entry : DirectoryEntry} (names : Names path entry) :
    fragmentEnd path 1 = path.length := by
  obtain ⟨name, extension, -, short, short', slashName, dotName, slashExtension, shape, -⟩ :=
    names.named
  unfold fragmentEnd extensionStart nameEnd componentEnd
  rcases shape with ⟨rfl, -⟩ | rfl
  · rw [strchr_cons_none slashName, strchr_cons_none dotName]
    simp only [Option.getD_none, Option.isSome_none, Bool.false_eq_true, if_false, List.length_cons]
    omega
  · have slash : SLASH ∉ name ++ DOT :: extension := by
      rw [List.mem_append, List.mem_cons, not_or, not_or]
      exact ⟨slashName, by decide, slashExtension⟩
    have length : (SLASH :: (name ++ DOT :: extension)).length = name.length + extension.length + 2 := by
      rw [List.length_cons, List.length_append, List.length_cons]
      omega
    rw [strchr_cons_none slash, strchr_cons_append dotName]
    simp only [Option.getD_none, Option.getD_some, Option.isSome_some, if_true]
    omega

end Fragments

/-- Names without a null byte are compared as a whole. -/
theorem strncmpEq_iff {name fragment : List UInt8} (length : name.length = fragment.length)
    (plain : (0 : UInt8) ∉ fragment) : strncmpEq name fragment = true ↔ name = fragment := by
  induction fragment generalizing name with
  | nil =>
      rw [List.eq_nil_of_length_eq_zero length]
      exact iff_of_true rfl rfl
  | cons b bs ih =>
      cases name with
      | nil => cases length
      | cons a as =>
          rw [List.mem_cons, not_or] at plain
          obtain ⟨nonzero, plain⟩ := plain
          have tail := ih (Nat.succ.inj length) plain
          rw [strncmpEq, Bool.and_eq_true, beq_iff_eq, Bool.or_eq_true, beq_iff_eq, tail,
            List.cons.injEq]
          refine and_congr_right fun same => or_iff_right fun zero => nonzero ?_
          rw [← zero, same]

/-! ## The search -/

section Search

variable {fs : FileSystem} {path fragment : List UInt8} {fuel directory i rest : Nat}

theorem not_searchOk_zero : ¬ SearchOk fs path 0 directory i fragment rest := by
  rintro ⟨⟨fileEntry, hang, -⟩, -⟩
  cases hang

theorem searchOk_end (done : fs.bpb.numOfDirectoryEntries.toNat ≤ i) :
    SearchOk fs path (fuel + 1) directory i fragment rest := by
  refine ⟨⟨none, ?_, fun entry some_ => ?_⟩, fun k mem => ?_⟩
  · rw [searchDirectory, if_neg (by omega)]
  · cases some_
  · rw [scanned, if_neg (by omega)] at mem
    cases mem

/-- An entry with another name is passed. -/
theorem searchOk_other (inside : i < fs.bpb.numOfDirectoryEntries.toNat)
    (other : strncmpEq (fs.rootDir (directory + i)).name fragment ≠ true) :
    SearchOk fs path (fuel + 1) directory i fragment rest ↔
      directory + i < fs.bpb.numOfDirectoryEntries.toNat ∧
        SearchOk fs path fuel directory (i + 1) fragment rest := by
  have search : searchDirectory fs path (fuel + 1) directory i fragment rest =
      searchDirectory fs path fuel directory (i + 1) fragment rest := by
    rw [searchDirectory, if_pos inside]
    exact if_neg other
  have visits : scanned fs path (fuel + 1) directory i fragment rest =
      (directory + i) :: scanned fs path fuel directory (i + 1) fragment rest := by
    rw [scanned, if_pos inside]
    exact congrArg _ (if_neg other)
  constructor
  · rintro ⟨returns, inside⟩
    rw [search] at returns
    rw [visits, List.forall_mem_cons] at inside
    exact ⟨inside.1, returns, inside.2⟩
  · rintro ⟨here, returns, inside⟩
    refine ⟨?_, ?_⟩
    · rw [search]
      exact returns
    · rw [visits, List.forall_mem_cons]
      exact ⟨here, inside⟩

/-- At the end of the path an entry with the name is returned, unless it is a directory. -/
theorem searchOk_file (inside : i < fs.bpb.numOfDirectoryEntries.toNat)
    (same : strncmpEq (fs.rootDir (directory + i)).name fragment = true)
    (atEnd : charAt path rest = 0) :
    SearchOk fs path (fuel + 1) directory i fragment rest ↔
      directory + i < fs.bpb.numOfDirectoryEntries.toNat ∧ Names path (fs.rootDir (directory + i)) := by
  have search : searchDirectory fs path (fuel + 1) directory i fragment rest =
      (kassert ((fs.rootDir (directory + i)).attributes &&& DIRECTORY == 0)
        "file should not be a directory!" >>= fun _ => .ok (some (fs.rootDir (directory + i)))) := by
    rw [searchDirectory, if_pos inside]
    dsimp only
    rw [if_pos same, if_pos (beq_iff_eq.mpr atEnd)]
    rfl
  have visits : scanned fs path (fuel + 1) directory i fragment rest = [directory + i] := by
    rw [scanned, if_pos inside]
    dsimp only
    rw [if_pos same, if_pos (Or.inl (beq_iff_eq.mpr atEnd))]
  constructor
  · rintro ⟨⟨fileEntry, result, names⟩, inside⟩
    rw [search] at result
    obtain ⟨_, -, result⟩ := bind_eq_ok result
    cases result
    rw [visits] at inside
    exact ⟨inside _ (List.mem_singleton.mpr rfl), names _ rfl⟩
  · rintro ⟨here, names⟩
    refine ⟨⟨some (fs.rootDir (directory + i)), ?_, fun entry some_ => ?_⟩, fun k mem => ?_⟩
    · rw [search, names.isFile.1]
      rfl
    · cases some_
      exact names
    · rw [visits, List.mem_singleton] at mem
      rw [mem]
      exact here

/-- Otherwise it must be a directory, and the search goes on behind it. -/
theorem searchOk_directory (inside : i < fs.bpb.numOfDirectoryEntries.toNat)
    (same : strncmpEq (fs.rootDir (directory + i)).name fragment = true)
    (more : charAt path rest ≠ 0) :
    SearchOk fs path (fuel + 1) directory i fragment rest ↔
      directory + i < fs.bpb.numOfDirectoryEntries.toNat ∧
        (fs.rootDir (directory + i)).attributes &&& DIRECTORY ≠ 0 ∧
        ∃ fragment' rest', readNextFragment path rest = .ok (fragment', rest') ∧
          SearchOk fs path fuel (directory + i) 1 fragment' rest' := by
  have search : searchDirectory fs path (fuel + 1) directory i fragment rest =
      (kassert ((fs.rootDir (directory + i)).attributes &&& DIRECTORY != 0)
        "path fragment not directory!" >>= fun _ => readNextFragment path rest >>= fun next =>
          searchDirectory fs path fuel (directory + i) 1 next.1 next.2) := by
    rw [searchDirectory, if_pos inside]
    dsimp only
    rw [if_pos same, if_neg (mt beq_iff_eq.mp more)]
  constructor
  · rintro ⟨⟨fileEntry, result, names⟩, inside'⟩
    rw [search] at result
    obtain ⟨_, isDirectory, result⟩ := bind_eq_ok result
    obtain ⟨⟨fragment', rest'⟩, next, result⟩ := bind_eq_ok result
    have isDirectory := bne_iff_ne.mp (kassert_eq_ok isDirectory)
    rw [scanned, if_pos inside] at inside'
    dsimp only at inside'
    rw [if_pos same, if_neg (not_or.mpr ⟨mt beq_iff_eq.mp more, isDirectory⟩), next,
      List.forall_mem_cons] at inside'
    exact ⟨inside'.1, isDirectory, fragment', rest', next, ⟨fileEntry, result, names⟩, inside'.2⟩
  · rintro ⟨here, isDirectory, fragment', rest', next, ⟨fileEntry, result, names⟩, inside'⟩
    refine ⟨⟨fileEntry, ?_, names⟩, ?_⟩
    · rw [search, bne_iff_ne.mpr isDirectory, next]
      exact result
    · rw [scanned, if_pos inside]
      dsimp only
      rw [if_pos same, if_neg (not_or.mpr ⟨mt beq_iff_eq.mp more, isDirectory⟩), next,
        List.forall_mem_cons]
      exact ⟨here, inside'⟩

/-- In a directory other than the first entry a search for a path of several components
ends badly: it leaves the root directory, unless it stops before that. -/
theorem not_searchOk_behind (unnamed : ∀ entry, ¬ Names path entry) (behind : 0 < directory)
    (inside : i < fs.bpb.numOfDirectoryEntries.toNat) :
    ¬ SearchOk fs path fuel directory i fragment rest := by
  induction fuel generalizing directory i fragment rest with
  | zero => exact not_searchOk_zero
  | succ fuel ih =>
      by_cases same : strncmpEq (fs.rootDir (directory + i)).name fragment = true
      · by_cases atEnd : charAt path rest = 0
        · rw [searchOk_file inside same atEnd]
          exact fun ⟨_, names⟩ => unnamed _ names
        · rw [searchOk_directory inside same atEnd]
          rintro ⟨here, -, fragment', rest', -, searchOk⟩
          exact ih (by omega) (by omega) searchOk
      · rw [searchOk_other inside same]
        rintro ⟨here, searchOk⟩
        exact ih behind (by omega) searchOk

/-- The entries in front of the first one with the name are passed. -/
theorem searchOk_skip (count : Nat) (inside : i + count ≤ fs.bpb.numOfDirectoryEntries.toNat)
    (other : ∀ e, i ≤ e → e < i + count → strncmpEq (fs.rootDir e).name fragment ≠ true) :
    SearchOk fs path (fuel + count) 0 i fragment rest ↔
      SearchOk fs path fuel 0 (i + count) fragment rest := by
  induction count generalizing i with
  | zero => exact Iff.rfl
  | succ count ih =>
      have here : 0 + i = i := Nat.zero_add i
      have passed : strncmpEq (fs.rootDir (0 + i)).name fragment ≠ true := by
        rw [here]
        exact other i (Nat.le_refl i) (by omega)
      have later : SearchOk fs path (fuel + count) 0 (i + 1) fragment rest ↔
          SearchOk fs path fuel 0 (i + 1 + count) fragment rest :=
        ih (by omega) fun e le lt => other e (by omega) (by omega)
      rw [← Nat.add_assoc, searchOk_other (by omega) passed, here, and_iff_right (by omega), later,
        Nat.add_right_comm, Nat.add_assoc]

/-- Without an entry of the name the search comes to the end of the root directory. -/
theorem searchOk_none
    (other : ∀ e, i ≤ e → e < fs.bpb.numOfDirectoryEntries.toNat →
      strncmpEq (fs.rootDir e).name fragment ≠ true)
    (enough : fs.bpb.numOfDirectoryEntries.toNat ≤ fuel + i) :
    SearchOk fs path (fuel + 1) 0 i fragment rest := by
  rcases Nat.lt_or_ge i fs.bpb.numOfDirectoryEntries.toNat with inside | done
  · obtain ⟨more, rfl⟩ : ∃ more, fuel = more + (fs.bpb.numOfDirectoryEntries.toNat - i) :=
      ⟨fuel - (fs.bpb.numOfDirectoryEntries.toNat - i), by omega⟩
    rw [Nat.add_right_comm, searchOk_skip (fs.bpb.numOfDirectoryEntries.toNat - i) (by omega)
      fun e le lt => other e le (by omega)]
    exact searchOk_end (by omega)
  · exact searchOk_end done

/-- From an entry on there is a first one with the name, or none. -/
theorem firstNamed_or_none (fs : FileSystem) (fragment : List UInt8) (i : Nat) :
    (∃ e, i ≤ e ∧ e < fs.bpb.numOfDirectoryEntries.toNat ∧ (fs.rootDir e).name = fragment ∧
      ∀ j, i ≤ j → j < e → (fs.rootDir j).name ≠ fragment) ∨
    ∀ e, i ≤ e → e < fs.bpb.numOfDirectoryEntries.toNat → (fs.rootDir e).name ≠ fragment := by
  by_cases some_ : ∃ e, i ≤ e ∧ e < fs.bpb.numOfDirectoryEntries.toNat ∧
      (fs.rootDir e).name = fragment
  · obtain ⟨behind, inside, named⟩ := Nat.find_spec some_
    refine Or.inl ⟨Nat.find some_, behind, inside, named, fun j le before same => ?_⟩
    exact Nat.find_min some_ before ⟨le, Nat.lt_trans before inside, same⟩
  · exact Or.inr fun e le lt same => some_ ⟨e, le, lt, same⟩

/-- Behind the first entry such a path must not be found. -/
theorem searchOk_first (unnamed : ∀ entry, ¬ Names path entry)
    (compare : ∀ e, strncmpEq (fs.rootDir e).name fragment = true ↔ (fs.rootDir e).name = fragment)
    (behind : 0 < i) (enough : fs.bpb.numOfDirectoryEntries.toNat ≤ fuel + i) :
    SearchOk fs path (fuel + 1) 0 i fragment rest ↔
      ∀ e, i ≤ e → e < fs.bpb.numOfDirectoryEntries.toNat → (fs.rootDir e).name ≠ fragment := by
  rcases firstNamed_or_none fs fragment i with ⟨e, le, inside, named, first⟩ | none_
  · refine iff_of_false ?_ fun other => other e le inside named
    have same : strncmpEq (fs.rootDir (0 + e)).name fragment = true := by
      rw [Nat.zero_add]
      exact (compare e).mpr named
    obtain ⟨count, rfl⟩ := Nat.exists_eq_add_of_le le
    obtain ⟨more, rfl⟩ : ∃ more, fuel = more + count := ⟨fuel - count, by omega⟩
    rw [Nat.add_right_comm,
      searchOk_skip count (by omega) fun j le lt => mt (compare j).mp (first j le lt)]
    by_cases atEnd : charAt path rest = 0
    · rw [searchOk_file inside same atEnd]
      exact fun ⟨_, names⟩ => unnamed _ names
    · rw [searchOk_directory inside same atEnd]
      rintro ⟨-, -, fragment', rest', -, searchOk⟩
      exact not_searchOk_behind unnamed (by omega) (by omega) searchOk
  · refine iff_of_true (searchOk_none (fun e le lt => ?_) enough) none_
    exact mt (compare e).mp (none_ e le lt)

/-- What the first entry with the name must be: a file that the path names; or, if the path
goes on, the directory at the start of the root directory, and no entry behind it has the
name that comes next. -/
def EntryOk (fs : FileSystem) (path : List UInt8) (rest e : Nat) : Prop :=
  Names path (fs.rootDir e) ∨
    (e = 0 ∧ rest < path.length ∧ (fs.rootDir e).attributes &&& DIRECTORY ≠ 0 ∧
      Readable path rest ∧ ∀ e', 0 < e' → e' < fs.bpb.numOfDirectoryEntries.toNat →
        (fs.rootDir e').name ≠ fragmentAt path rest)

/-- A fragment is compared as a whole. -/
theorem compareNames (entries : ∀ e, (fs.rootDir e).name.length = 11) (plain : (0 : UInt8) ∉ path)
    (readable : Readable path rest) (e : Nat) :
    strncmpEq (fs.rootDir e).name (fragmentAt path rest) = true ↔
      (fs.rootDir e).name = fragmentAt path rest := by
  obtain ⟨length, noNull⟩ := fragmentAt_plain plain readable
  exact strncmpEq_iff ((entries e).trans length.symm) noNull

/-- The entry at which the search stops decides. -/
theorem searchOk_named_iff {e : Nat} (plain : (0 : UInt8) ∉ path)
    (entries : ∀ e, (fs.rootDir e).name.length = 11)
    (rest_ : rest = fragmentEnd path 1) (inPath : rest ≤ path.length)
    (inside : e < fs.bpb.numOfDirectoryEntries.toNat)
    (same : strncmpEq (fs.rootDir (0 + e)).name fragment = true)
    (enough : fs.bpb.numOfDirectoryEntries.toNat ≤ fuel) :
    SearchOk fs path (fuel + 1) 0 e fragment rest ↔ EntryOk fs path rest e := by
  have here : 0 + e = e := Nat.zero_add e
  by_cases atEnd : charAt path rest = 0
  · have ends := (charAt_zero_iff plain).mp atEnd
    rw [searchOk_file inside same atEnd, here]
    constructor
    · exact fun ⟨_, names⟩ => Or.inl names
    · rintro (names | ⟨-, more, -⟩)
      · exact ⟨inside, names⟩
      · omega
  · have more := Nat.not_le.mp (mt (charAt_zero_iff plain).mpr atEnd)
    have unnamed : ∀ entry, ¬ Names path entry := by
      intro entry names
      have := names.atEnd
      omega
    rw [searchOk_directory inside same atEnd, here]
    constructor
    · rintro ⟨-, isDirectory, fragment', rest', next, searchOk⟩
      have first : e = 0 := by
        by_contra behind
        exact not_searchOk_behind unnamed (by omega) (by omega) searchOk
      subst first
      have readable : Readable path rest := by
        by_contra unreadable
        rw [readNextFragment_error inPath unreadable] at next
        cases next
      rw [readNextFragment_ok inPath readable] at next
      cases next
      have compare' := compareNames entries plain readable
      obtain ⟨fuel, rfl⟩ := Nat.exists_eq_succ_of_ne_zero (show fuel ≠ 0 by omega)
      exact Or.inr ⟨rfl, more, isDirectory, readable,
        (searchOk_first unnamed compare' Nat.zero_lt_one (by omega)).mp searchOk⟩
    · rintro (names | ⟨rfl, -, isDirectory, readable, other⟩)
      · exact absurd names (unnamed _)
      · have compare' := compareNames entries plain readable
        obtain ⟨fuel, rfl⟩ := Nat.exists_eq_succ_of_ne_zero (show fuel ≠ 0 by omega)
        exact ⟨inside, isDirectory, _, _, readNextFragment_ok inPath readable,
          (searchOk_first unnamed compare' Nat.zero_lt_one (by omega)).mpr other⟩

/-- The first entry with the name decides. -/
theorem searchOk_iff (plain : (0 : UInt8) ∉ path) (entries : ∀ e, (fs.rootDir e).name.length = 11)
    (compare : ∀ e, strncmpEq (fs.rootDir e).name fragment = true ↔ (fs.rootDir e).name = fragment)
    (rest_ : rest = fragmentEnd path 1) (inPath : rest ≤ path.length)
    (enough : 2 * fs.bpb.numOfDirectoryEntries.toNat ≤ fuel) :
    SearchOk fs path (fuel + 1) 0 0 fragment rest ↔
      ∀ e, e < fs.bpb.numOfDirectoryEntries.toNat → (fs.rootDir e).name = fragment →
        (∀ j, j < e → (fs.rootDir j).name ≠ fragment) → EntryOk fs path rest e := by
  rcases firstNamed_or_none fs fragment 0 with ⟨e, -, inside, named, first⟩ | none_
  · have same : strncmpEq (fs.rootDir (0 + e)).name fragment = true := by
      rw [Nat.zero_add]
      exact (compare e).mpr named
    have first : ∀ j, j < e → (fs.rootDir j).name ≠ fragment := fun j => first j (Nat.zero_le j)
    obtain ⟨more, rfl⟩ : ∃ more, fuel = more + e := ⟨fuel - e, by omega⟩
    rw [Nat.add_right_comm,
      searchOk_skip e (by omega) fun j _ lt => mt (compare j).mp (first j (by omega)), Nat.zero_add,
      searchOk_named_iff plain entries rest_ inPath inside same (by omega)]
    constructor
    · intro ok e' lt named' first'
      rcases Nat.lt_trichotomy e e' with before | equal | behind
      · exact absurd named (first' e before)
      · exact equal ▸ ok
      · exact absurd named' (first e' behind)
    · exact fun all => all e inside named first
  · refine iff_of_true (searchOk_none (fun e le lt => ?_) (by omega)) fun e lt named _ => ?_
    · exact mt (compare e).mp (none_ e le lt)
    · exact absurd named (none_ e (Nat.zero_le e) lt)

end Search

/-- The path is rooted, its first component can be read, and the first entry with that name,
if there is one, is the named file, or it is the directory at the start of the root
directory and what comes next in the path is not found behind it. -/
structure Resolvable (fs : FileSystem) (path : List UInt8) : Prop where
  rooted : charAt path 0 = SLASH
  readable : Readable path 1
  first : ∀ e, e < fs.bpb.numOfDirectoryEntries.toNat → (fs.rootDir e).name = fragmentAt path 1 →
    (∀ j, j < e → (fs.rootDir j).name ≠ fragmentAt path 1) → EntryOk fs path (fragmentEnd path 1) e

/-- `resolve_path` is right for exactly these paths and root directories. -/
theorem resolves_iff (bpb : Bpb) (bytes : Nat → UInt8) (path : CString) :
    Resolves (ofMemory bpb bytes) path.val ↔ Resolvable (ofMemory bpb bytes) path.val := by
  obtain ⟨path, plain⟩ := path
  have entries : ∀ e, ((ofMemory bpb bytes).rootDir e).name.length = 11 := fun e => by
    simp [ofMemory, DirectoryEntry.ofBytes]
  generalize ofMemory bpb bytes = fs at *
  dsimp only
  obtain ⟨fuel, fuel_, enough⟩ : ∃ fuel, 2 ^ 96 = fuel + 1 ∧ 2 ^ 17 ≤ fuel :=
    ⟨2 ^ 96 - 1, by decide, by decide⟩
  by_cases rooted : charAt path 0 = SLASH
  · have inside : 1 ≤ path.length := by
      by_contra empty
      rw [(charAt_zero_iff plain).mpr (by omega)] at rooted
      exact absurd rooted (by decide)
    have resolve : resolvePath fs path = (readNextFragment path 1 >>= fun next =>
        searchDirectory fs path (fuel + 1) 0 0 next.1 next.2) := by
      unfold resolvePath
      rw [rooted, fuel_]
      rfl
    by_cases readable : Readable path 1
    · have search : Resolves fs path ↔
          SearchOk fs path (fuel + 1) 0 0 (fragmentAt path 1) (fragmentEnd path 1) := by
        constructor
        · rintro ⟨returns, inside'⟩
          rw [resolve, readNextFragment_ok inside readable] at returns
          unfold scannedEntries at inside'
          rw [readNextFragment_ok inside readable, fuel_] at inside'
          exact ⟨returns, inside'⟩
        · rintro ⟨returns, inside'⟩
          refine ⟨?_, ?_⟩
          · rw [resolve, readNextFragment_ok inside readable]
            exact returns
          · unfold scannedEntries
            rw [readNextFragment_ok inside readable, fuel_]
            exact inside'
      have words : fs.bpb.numOfDirectoryEntries.toNat < 2 ^ 16 := UInt16.toNat_lt _
      rw [search, searchOk_iff plain entries (compareNames entries plain readable) rfl
        (fragmentEnd_le inside) (by omega)]
      exact ⟨fun first => ⟨rooted, readable, first⟩, fun ⟨_, _, first⟩ => first⟩
    · refine iff_of_false ?_ fun resolvable => readable resolvable.readable
      rintro ⟨⟨fileEntry, result, -⟩, -⟩
      rw [resolve, readNextFragment_error inside readable] at result
      cases result
  · refine iff_of_false ?_ fun resolvable => rooted resolvable.rooted
    rintro ⟨⟨fileEntry, result, -⟩, -⟩
    obtain ⟨_, isRooted, -⟩ := bind_eq_ok result
    exact rooted (beq_iff_eq.mp (kassert_eq_ok isRooted))

/-- A root directory of two entries, the second of which is the directory `A`. -/
def sampleRoot : FileSystem :=
  ofMemory ⟨512, 1, 1, 2, 2, 9⟩ fun x => if x = 32 then 0x41 else if x < 43 then 0x20 else 0x10

/-- An assertion fails for the paths `A`, `/LONGFILES.C` and `/A/B.C`. For `/A/B` the search
goes on behind the last entry. -/
theorem paths_not_resolved :
    ¬ Resolves sampleRoot [0x41] ∧
      ¬ Resolves sampleRoot [0x2F, 0x4C, 0x4F, 0x4E, 0x47, 0x46, 0x49, 0x4C, 0x45, 0x53, 0x2E, 0x43] ∧
      ¬ Resolves sampleRoot [0x2F, 0x41, 0x2F, 0x42, 0x2E, 0x43] ∧
      ¬ Resolves sampleRoot [0x2F, 0x41, 0x2F, 0x42] := by
  have stops : ∀ path, completesWith (resolvePath sampleRoot path) (fun _ => true) = false →
      ¬ Resolves sampleRoot path := by
    rintro path fails ⟨⟨fileEntry, result, -⟩, -⟩
    rw [result] at fails
    cases fails
  refine ⟨stops _ (by decide +kernel), stops _ (by decide +kernel), stops _ (by decide +kernel), ?_⟩
  intro resolves
  exact absurd (resolves.inside 2 (by decide +kernel)) (by decide)

end Tyleros.Fat
