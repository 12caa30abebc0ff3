import Tyleros.Fat.Paths

/-!
# Looking up a short name in the root directory

A path of one component, `/base` or `/base.ext`, is read by `read_next_fragment` as a whole:
the fragment is the 11 bytes of its `short_file_full_name`, whatever the lengths of its two
parts are. The search passes the entries with other names and stops at the first one that
has this name.

* `ShortPath.readNextFragment_eq`: the fragment, and that the path ends behind it.
* `searchDirectory_skip`: the entries that are passed.
* `ShortPath.resolvePath_finds`: what `resolve_path` returns.
-/

namespace Tyleros.Fat

/-- The parts of a path of one component; `none` stands for no dot. -/
structure ShortPath where
  base : List UInt8
  ext : Option (List UInt8)
  base_length : 1 ≤ base.length ∧ base.length ≤ 8
  ext_length : (ext.getD []).length ≤ 3
  plain : ∀ ch ∈ base ++ ext.getD [], ch ≠ SLASH ∧ ch ≠ DOT ∧ ch ≠ 0

namespace ShortPath

/-- The path itself. -/
def path (p : ShortPath) : List UInt8 :=
  SLASH :: match p.ext with
    | none => p.base
    | some ext => p.base ++ DOT :: ext

/-- The two parts in upper case, padded with blanks. -/
def field (p : ShortPath) : List UInt8 := shortFileFullName p.base (p.ext.getD [])

variable (p : ShortPath)

theorem mem_path {ch : UInt8} (mem : ch ∈ p.path) :
    ch = SLASH ∨ ch = DOT ∨ ch ∈ p.base ++ p.ext.getD [] := by
  unfold path at mem
  rcases List.mem_cons.mp mem with slash | mem
  · exact Or.inl slash
  · cases form : p.ext with
    | none =>
        rw [form] at mem
        exact Or.inr (Or.inr (List.mem_append_left _ mem))
    | some ext =>
        rw [form] at mem
        rcases List.mem_append.mp mem with base | mem
        · exact Or.inr (Or.inr (List.mem_append_left _ base))
        · rcases List.mem_cons.mp mem with dot | mem
          · exact Or.inr (Or.inl dot)
          · exact Or.inr (Or.inr (List.mem_append_right _ mem))

theorem zero_notMem_path : (0 : UInt8) ∉ p.path := by
  intro mem
  rcases p.mem_path mem with slash | dot | part
  · exact absurd slash (by decide)
  · exact absurd dot (by decide)
  · exact (p.plain 0 part).2.2 rfl

theorem notMem_base : SLASH ∉ p.base ∧ DOT ∉ p.base :=
  ⟨fun mem => (p.plain _ (List.mem_append_left _ mem)).1 rfl,
    fun mem => (p.plain _ (List.mem_append_left _ mem)).2.1 rfl⟩

theorem slash_notMem_ext : SLASH ∉ p.ext.getD [] :=
  fun mem => (p.plain _ (List.mem_append_right _ mem)).1 rfl

theorem field_plain : p.field.length = 11 ∧ (0 : UInt8) ∉ p.field :=
  shortFileFullName_plain p.base_length.2 p.ext_length
    (fun mem => (p.plain _ (List.mem_append_left _ mem)).2.2 rfl)
    (fun mem => (p.plain _ (List.mem_append_right _ mem)).2.2 rfl)

end ShortPath

/-! ## The fragment -/

section Fragment

variable {base ext : List UInt8}

theorem slice_append (front part back : List UInt8) :
    slice (front ++ (part ++ back)) front.length (front.length + part.length) = part := by
  rw [slice, List.drop_left, Nat.add_sub_cancel_left, List.take_left]

/-- Without a dot the name ends with the path, and blanks are read from there on. -/
theorem readNextFragment_base (short : base.length ≤ 8) (noSlash : SLASH ∉ base)
    (noDot : DOT ∉ base) :
    readNextFragment (SLASH :: base) 1 = .ok (shortFileFullName base [], base.length + 1) := by
  have length : (SLASH :: base).length = 1 + base.length := by
    rw [List.length_cons, Nat.add_comm]
  have dot : strchr (SLASH :: base) 1 DOT = none := strchr_cons_none noDot
  have component : componentEnd (SLASH :: base) 1 = 1 + base.length := by
    rw [componentEnd, strchr_cons_none noSlash, Option.getD_none, length]
  have name : nameEnd (SLASH :: base) 1 = 1 + base.length := by
    rw [nameEnd, dot, Option.getD_none, component]
    omega
  have start : extensionStart (SLASH :: base) 1 = 1 + base.length := by
    rw [extensionStart, dot, name]
    rfl
  have ends : fragmentEnd (SLASH :: base) 1 = 1 + base.length := by
    rw [fragmentEnd, component, start]
    omega
  have readable : Readable (SLASH :: base) 1 := by
    intro sep found
    rw [dot] at found
    cases found
  have nameChars : slice (SLASH :: base) 1 (1 + base.length) = base := by
    have whole := slice_append [SLASH] base []
    rwa [List.append_nil] at whole
  have extChars : slice (SLASH :: base) (1 + base.length) (1 + base.length) = [] := by
    rw [slice, Nat.sub_self, List.take_zero]
  rw [readNextFragment_ok (by omega) readable, fragmentAt, name, start, ends, nameChars, extChars,
    Nat.add_comm]

/-- With a dot the name ends there, and the extension with the path. -/
theorem readNextFragment_base_ext (short : base.length ≤ 8) (noSlash : SLASH ∉ base)
    (noDot : DOT ∉ base) (short' : ext.length ≤ 3) (noSlash' : SLASH ∉ ext) :
    readNextFragment (SLASH :: (base ++ DOT :: ext)) 1 =
      .ok (shortFileFullName base ext, base.length + ext.length + 2) := by
  have length : (SLASH :: (base ++ DOT :: ext)).length = base.length + 2 + ext.length := by
    rw [List.length_cons, List.length_append, List.length_cons]
    omega
  have slash : SLASH ∉ base ++ DOT :: ext := by
    rw [List.mem_append, List.mem_cons, not_or, not_or]
    exact ⟨noSlash, by decide, noSlash'⟩
  have dot : strchr (SLASH :: (base ++ DOT :: ext)) 1 DOT = some (base.length + 1) :=
    strchr_cons_append noDot
  have component : componentEnd (SLASH :: (base ++ DOT :: ext)) 1 = base.length + 2 + ext.length := by
    rw [componentEnd, strchr_cons_none slash, Option.getD_none, length]
  have name : nameEnd (SLASH :: (base ++ DOT :: ext)) 1 = 1 + base.length := by
    rw [nameEnd, dot, Option.getD_some, Nat.add_comm]
  have start : extensionStart (SLASH :: (base ++ DOT :: ext)) 1 = base.length + 2 := by
    rw [extensionStart, dot, name, Option.isSome_some, if_pos rfl]
    omega
  have ends : fragmentEnd (SLASH :: (base ++ DOT :: ext)) 1 = base.length + 2 + ext.length := by
    rw [fragmentEnd, component, start]
    omega
  have readable : Readable (SLASH :: (base ++ DOT :: ext)) 1 := by
    intro sep found
    rw [dot] at found
    cases found
    rw [component]
    omega
  have nameChars : slice (SLASH :: (base ++ DOT :: ext)) 1 (1 + base.length) = base :=
    slice_append [SLASH] base (DOT :: ext)
  have extChars : slice (SLASH :: (base ++ DOT :: ext)) (base.length + 2)
      (base.length + 2 + ext.length) = ext := by
    have whole := slice_append (SLASH :: (base ++ [DOT])) ext []
    rwa [List.append_nil, List.length_cons, List.length_append, List.length_singleton,
      List.cons_append, List.append_assoc] at whole
  rw [readNextFragment_ok (by omega) readable, fragmentAt, name, start, ends, nameChars, extChars,
    Nat.add_right_comm]

/-- `read_next_fragment` reads the whole path, and pads its two parts. -/
theorem ShortPath.readNextFragment_eq (p : ShortPath) :
    readNextFragment p.path 1 = .ok (p.field, p.path.length) := by
  obtain ⟨noSlash, noDot⟩ := p.notMem_base
  have short' := p.ext_length
  have noSlash' := p.slash_notMem_ext
  unfold ShortPath.path ShortPath.field
  cases form : p.ext with
  | none => exact readNextFragment_base p.base_length.2 noSlash noDot
  | some ext =>
      rw [form, Option.getD_some] at short' noSlash'
      dsimp only
      rw [Option.getD_some,
        readNextFragment_base_ext p.base_length.2 noSlash noDot short' noSlash']
      simp only [List.length_cons, List.length_append, Nat.add_assoc]

end Fragment

/-! ## The search -/

section Search

variable {fs : FileSystem} {path fragment : List UInt8} {fuel i rest : Nat}

/-- The entries with other names are passed. -/
theorem searchDirectory_skip (count : Nat)
    (inside : i + count ≤ fs.bpb.numOfDirectoryEntries.toNat)
    (other : ∀ e, i ≤ e → e < i + count → strncmpEq (fs.rootDir e).name fragment ≠ true) :
    searchDirectory fs path (fuel + count) 0 i fragment rest =
      searchDirectory fs path fuel 0 (i + count) fragment rest := by
  induction count generalizing i with
  | zero => rfl
  | succ count ih =>
      have here : 0 + i = i := Nat.zero_add i
      have passed : searchDirectory fs path (fuel + count + 1) 0 i fragment rest =
          searchDirectory fs path (fuel + count) 0 (i + 1) fragment rest := by
        rw [searchDirectory, if_pos (by omega), here]
        exact if_neg (other i (Nat.le_refl i) (by omega))
      rw [← Nat.add_assoc, passed, ih (by omega) fun e le lt => other e (by omega) (by omega)]
      rw [Nat.add_right_comm, Nat.add_assoc]

/-- At the end of the path the first entry with the name is the last one that is compared. -/
theorem searchDirectory_first {e : Nat} (atEnd : charAt path rest = 0)
    (inside : e < fs.bpb.numOfDirectoryEntries.toNat)
    (named : strncmpEq (fs.rootDir e).name fragment = true)
    (first : ∀ j < e, strncmpEq (fs.rootDir j).name fragment ≠ true) (enough : e < fuel) :
    searchDirectory fs path fuel 0 0 fragment rest =
      (kassert ((fs.rootDir e).attributes &&& DIRECTORY == 0) "file should not be a directory!" >>=
        fun _ => .ok (some (fs.rootDir e))) := by
  obtain ⟨fuel, rfl⟩ : ∃ more, fuel = more + 1 + e := ⟨fuel - 1 - e, by omega⟩
  rw [searchDirectory_skip e (by omega) fun j _ lt => first j (by omega), searchDirectory]
  simp only [Nat.zero_add]
  rw [if_pos inside, if_pos named, if_pos (beq_iff_eq.mpr atEnd)]
  rfl

/-- Without an entry of the name the search comes to the end of the root directory. -/
theorem searchDirectory_none
    (other : ∀ e < fs.bpb.numOfDirectoryEntries.toNat, strncmpEq (fs.rootDir e).name fragment ≠ true)
    (enough : fs.bpb.numOfDirectoryEntries.toNat < fuel) :
    searchDirectory fs path fuel 0 0 fragment rest = .ok none := by
  obtain ⟨fuel, rfl⟩ : ∃ more, fuel = more + 1 + fs.bpb.numOfDirectoryEntries.toNat :=
    ⟨fuel - 1 - fs.bpb.numOfDirectoryEntries.toNat, by omega⟩
  rw [searchDirectory_skip _ (by omega) fun e _ lt => other e (by omega), searchDirectory,
    if_neg (by omega)]

end Search

/-! ## `resolve_path` -/

/-- The field is compared as a whole. -/
theorem ShortPath.compare (p : ShortPath) (bpb : Bpb) (bytes : Nat → UInt8) (e : Nat) :
    strncmpEq ((ofMemory bpb bytes).rootDir e).name p.field = true ↔
      ((ofMemory bpb bytes).rootDir e).name = p.field := by
  obtain ⟨length, plain⟩ := p.field_plain
  have name : ((ofMemory bpb bytes).rootDir e).name.length = 11 := by
    simp [ofMemory, DirectoryEntry.ofBytes]
  exact strncmpEq_iff (name.trans length.symm) plain

/-- The search for the field begins with the first entry, at the end of the path. -/
theorem ShortPath.resolvePath_eq (p : ShortPath) (fs : FileSystem) :
    resolvePath fs p.path = searchDirectory fs p.path (2 ^ 96) 0 0 p.field p.path.length := by
  have rooted : charAt p.path 0 = 0x2F := rfl
  unfold resolvePath
  rw [rooted, p.readNextFragment_eq]
  rfl

/-- The first entry with the field decides: it is returned, or it must not be a directory. -/
theorem ShortPath.resolvePath_first (p : ShortPath) (bpb : Bpb) (bytes : Nat → UInt8) {e : Nat}
    (inside : e < bpb.numOfDirectoryEntries.toNat)
    (named : ((ofMemory bpb bytes).rootDir e).name = p.field)
    (first : ∀ j < e, ((ofMemory bpb bytes).rootDir j).name ≠ p.field) :
    resolvePath (ofMemory bpb bytes) p.path =
      (kassert (((ofMemory bpb bytes).rootDir e).attributes &&& DIRECTORY == 0)
        "file should not be a directory!" >>= fun _ => .ok (some ((ofMemory bpb bytes).rootDir e))) := by
  have atEnd : charAt p.path p.path.length = 0 :=
    (charAt_zero_iff p.zero_notMem_path).mpr (Nat.le_refl _)
  have words : bpb.numOfDirectoryEntries.toNat < 2 ^ 16 := UInt16.toNat_lt _
  have enough : 2 ^ 16 < 2 ^ 96 := by decide
  rw [p.resolvePath_eq]
  exact searchDirectory_first atEnd inside ((p.compare bpb bytes e).mpr named)
    (fun j before => mt (p.compare bpb bytes j).mp (first j before)) (by omega)

/-- `resolve_path` searches for the padded field, and returns the first entry that has it, or
null if there is none. -/
theorem ShortPath.resolvePath_finds (bpb : Bpb) (bytes : Nat → UInt8) (p : ShortPath) :
    let fs := ofMemory bpb bytes
    resolvePath fs p.path = searchDirectory fs p.path (2 ^ 96) 0 0 p.field p.path.length ∧
      (∀ e < bpb.numOfDirectoryEntries.toNat, (fs.rootDir e).name = p.field →
        (∀ j < e, (fs.rootDir j).name ≠ p.field) → (fs.rootDir e).attributes &&& DIRECTORY = 0 →
        resolvePath fs p.path = .ok (some (fs.rootDir e))) ∧
      (resolvePath fs p.path = .ok none ↔
        ∀ e < bpb.numOfDirectoryEntries.toNat, (fs.rootDir e).name ≠ p.field) := by
  intro fs
  refine ⟨p.resolvePath_eq fs, fun e inside named first file => ?_, fun null e inside named => ?_,
    fun none_ => ?_⟩
  · rw [p.resolvePath_first bpb bytes inside named first]
    show (kassert ((fs.rootDir e).attributes &&& DIRECTORY == 0) _ >>= _) = _
    rw [file]
    rfl
  · -- the first of the entries with the name would be returned
    rcases firstNamed_or_none fs p.field 0 with ⟨first, -, before, same, others⟩ | none_
    · rw [p.resolvePath_first bpb bytes before same fun j => others j (Nat.zero_le j)] at null
      obtain ⟨_, -, found⟩ := bind_eq_ok null
      cases found
    · exact none_ e (Nat.zero_le e) inside named
  · have words : bpb.numOfDirectoryEntries.toNat < 2 ^ 16 := UInt16.toNat_lt _
    have enough : 2 ^ 16 < 2 ^ 96 := by decide
    rw [p.resolvePath_eq]
    exact searchDirectory_none (fun e inside => mt (p.compare bpb bytes e).mp (none_ e inside))
      (Nat.lt_trans words enough)

/-- The path `/a.c`. -/
def samplePath : ShortPath := ⟨[0x61], some [0x63], by decide, by decide, by decide +kernel⟩

/-- The second of two entries is `A.C`. -/
def sampleBytes : Nat → UInt8 := fun x => if x = 32 then 0x41 else if x = 40 then 0x43 else 0x20

theorem resolvePath_finds_sample :
    resolvePath (ofMemory ⟨512, 1, 1, 2, 2, 9⟩ sampleBytes) samplePath.path =
      .ok (some ((ofMemory ⟨512, 1, 1, 2, 2, 9⟩ sampleBytes).rootDir 1)) := by
  obtain ⟨-, finds, -⟩ := ShortPath.resolvePath_finds ⟨512, 1, 1, 2, 2, 9⟩ sampleBytes samplePath
  exact finds 1 (by decide) (by decide) (by decide) (by decide)

end Tyleros.Fat
