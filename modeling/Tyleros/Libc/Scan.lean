import Tyleros.Libc.Pieces

/-!
# How the format is scanned

Flags, length and conversion character each move the cursor of the format, and the header of
the loop moves it once more, also past a terminator that stands where the conversion character
is expected. The cases of `%n` fall through: with a length modifier it takes several arguments.
`scansWell_iff`: only these two things are wrong with a format.
-/

namespace Tyleros.Libc

/-! ## The arguments of a conversion -/

theorem vaArg_taken {args args' : List Arg} {arg : Arg} (h : vaArg args = .ok (arg, args')) :
    args = arg :: args' := by
  cases args with
  | nil => cases h
  | cons a rest =>
      cases h
      rfl

theorem vaArgString_taken {args args' : List Arg} {text : CString}
    (h : vaArgString args = .ok (text, args')) : ∃ arg, args = arg :: args' := by
  obtain ⟨⟨arg, rest⟩, taken, h⟩ := bind_eq_ok h
  cases arg with
  | word bits => cases h
  | string address text' =>
      cases h
      exact ⟨_, vaArg_taken taken⟩
  | object address => cases h

theorem vaArgObject_taken {args args' : List Arg} {address : BitVec 64}
    (h : vaArgObject args = .ok (address, args')) : ∃ arg, args = arg :: args' := by
  obtain ⟨⟨arg, rest⟩, taken, h⟩ := bind_eq_ok h
  cases arg with
  | word bits => cases h
  | string address' text => cases h
  | object address' =>
      cases h
      exact ⟨_, vaArg_taken taken⟩

theorem signedIntegerArgOfLength_taken {args args' : List Arg} {l : Length} {value : Int}
    (h : signedIntegerArgOfLength args l = .ok (value, args')) : ∃ arg, args = arg :: args' := by
  obtain ⟨⟨arg, rest⟩, taken, h⟩ := bind_eq_ok h
  have same : rest = args' := by
    cases l <;> exact (Prod.mk.inj (Except.ok.inj h)).2
  exact ⟨arg, same ▸ vaArg_taken taken⟩

theorem unsignedIntegerArgOfLength_taken {args args' : List Arg} {l : Length} {value : Int}
    (h : unsignedIntegerArgOfLength args l = .ok (value, args')) : ∃ arg, args = arg :: args' := by
  obtain ⟨⟨arg, rest⟩, taken, h⟩ := bind_eq_ok h
  have same : rest = args' := by
    cases l <;> exact (Prod.mk.inj (Except.ok.inj h)).2
  exact ⟨arg, same ▸ vaArg_taken taken⟩

theorem countTargets_taken {sizes : List Nat} {args args' : List Arg}
    {targets : List (BitVec 64 × Nat)} (h : countTargets sizes args = .ok (targets, args')) :
    ∃ taken, args = taken ++ args' ∧ taken.length = sizes.length := by
  induction sizes generalizing args targets with
  | nil =>
      cases h
      exact ⟨[], rfl, rfl⟩
  | cons size sizes ih =>
      obtain ⟨⟨address, rest⟩, first, h⟩ := bind_eq_ok h
      obtain ⟨⟨targets', rest'⟩, others, h⟩ := bind_eq_ok h
      cases h
      obtain ⟨arg, rfl⟩ := vaArgObject_taken first
      obtain ⟨taken, rfl, length_⟩ := ih others
      exact ⟨arg :: taken, rfl, congrArg (· + 1) length_⟩

/-- How many arguments a conversion takes. -/
def Conversion.argCount (l : Length) : Conversion → Nat
  | .n => l.storeSizes.length
  | _ => 1

/-- A conversion takes its arguments from the front. -/
theorem converted_taken {l : Length} {pad0 : Bool} {args args' : List Arg}
    {conversion : Conversion} {p : Piece} (h : converted l pad0 args conversion = .ok (p, args')) :
    ∃ taken, args = taken ++ args' ∧ taken.length = conversion.argCount l := by
  have one (h : ∃ arg, args = arg :: args') :
      ∃ taken, args = taken ++ args' ∧ taken.length = 1 := by
    obtain ⟨arg, rfl⟩ := h
    exact ⟨[arg], rfl, rfl⟩
  cases conversion with
  | s =>
      obtain ⟨⟨text, rest⟩, taken, h⟩ := bind_eq_ok h
      cases h
      exact one (vaArgString_taken taken)
  | c =>
      obtain ⟨⟨arg, rest⟩, taken, h⟩ := bind_eq_ok h
      cases h
      exact one ⟨arg, vaArg_taken taken⟩
  | o =>
      obtain ⟨⟨value, rest⟩, taken, h⟩ := bind_eq_ok h
      cases h
      exact one (signedIntegerArgOfLength_taken taken)
  | d =>
      obtain ⟨⟨value, rest⟩, taken, h⟩ := bind_eq_ok h
      cases h
      exact one (signedIntegerArgOfLength_taken taken)
  | u =>
      obtain ⟨⟨value, rest⟩, taken, h⟩ := bind_eq_ok h
      cases h
      exact one (unsignedIntegerArgOfLength_taken taken)
  | X =>
      obtain ⟨⟨value, rest⟩, taken, h⟩ := bind_eq_ok h
      cases h
      exact one (unsignedIntegerArgOfLength_taken taken)
  | x =>
      obtain ⟨⟨value, rest⟩, taken, h⟩ := bind_eq_ok h
      cases h
      exact one (unsignedIntegerArgOfLength_taken taken)
  | p =>
      obtain ⟨⟨arg, rest⟩, taken, h⟩ := bind_eq_ok h
      cases h
      exact one ⟨arg, vaArg_taken taken⟩
  | n =>
      obtain ⟨⟨targets, rest⟩, taken, h⟩ := bind_eq_ok h
      cases h
      exact countTargets_taken taken

theorem vaArg_ne_overrun (args : List Arg) : vaArg args ≠ .error .formatOverrun := by
  cases args with
  | nil => exact fun h => nomatch h
  | cons arg args => exact fun h => nomatch h

theorem vaArgString_ne_overrun (args : List Arg) : vaArgString args ≠ .error .formatOverrun := by
  refine bind_ne_error (vaArg_ne_overrun args) fun ⟨arg, rest⟩ => ?_
  cases arg with
  | word bits => exact fun h => nomatch h
  | string address text => exact fun h => nomatch h
  | object address => exact fun h => nomatch h

theorem vaArgObject_ne_overrun (args : List Arg) : vaArgObject args ≠ .error .formatOverrun := by
  refine bind_ne_error (vaArg_ne_overrun args) fun ⟨arg, rest⟩ => ?_
  cases arg with
  | word bits => exact fun h => nomatch h
  | string address text => exact fun h => nomatch h
  | object address => exact fun h => nomatch h

theorem countTargets_ne_overrun (sizes : List Nat) (args : List Arg) :
    countTargets sizes args ≠ .error .formatOverrun := by
  induction sizes generalizing args with
  | nil => exact fun h => nomatch h
  | cons size sizes ih =>
      refine bind_ne_error (vaArgObject_ne_overrun args) fun ⟨address, rest⟩ => ?_
      exact bind_ne_error (ih rest) fun ⟨targets, rest⟩ h => nomatch h

/-- A conversion does not move the cursor of the format. -/
theorem converted_ne_overrun (l : Length) (pad0 : Bool) (args : List Arg)
    (conversion : Conversion) : converted l pad0 args conversion ≠ .error .formatOverrun := by
  have signed_ : signedIntegerArgOfLength args l ≠ .error .formatOverrun := by
    refine bind_ne_error (vaArg_ne_overrun args) fun ⟨arg, rest⟩ => ?_
    cases l <;> exact fun h => nomatch h
  have unsigned_ : unsignedIntegerArgOfLength args l ≠ .error .formatOverrun := by
    refine bind_ne_error (vaArg_ne_overrun args) fun ⟨arg, rest⟩ => ?_
    cases l <;> exact fun h => nomatch h
  cases conversion with
  | s => exact bind_ne_error (vaArgString_ne_overrun args) fun taken h => nomatch h
  | c => exact bind_ne_error (vaArg_ne_overrun args) fun taken h => nomatch h
  | o => exact bind_ne_error signed_ fun taken h => nomatch h
  | d => exact bind_ne_error signed_ fun taken h => nomatch h
  | u => exact bind_ne_error unsigned_ fun taken h => nomatch h
  | X => exact bind_ne_error unsigned_ fun taken h => nomatch h
  | x => exact bind_ne_error unsigned_ fun taken h => nomatch h
  | p => exact bind_ne_error (vaArg_ne_overrun args) fun taken h => nomatch h
  | n => exact bind_ne_error (countTargets_ne_overrun _ args) fun taken h => nomatch h

/-- The arguments of `%n` are there. -/
theorem countTargets_objects (sizes : List Nat) :
    ∃ targets, ∀ args, countTargets sizes (List.replicate sizes.length (.object 0) ++ args) =
      .ok (targets, args) := by
  induction sizes with
  | nil => exact ⟨[], fun args => rfl⟩
  | cons size sizes ih =>
      obtain ⟨targets, rest⟩ := ih
      refine ⟨(0, size) :: targets, fun args => ?_⟩
      rw [List.length_cons, List.replicate_succ, List.cons_append]
      unfold countTargets
      have first : vaArgObject (.object 0 :: (List.replicate sizes.length (.object 0) ++ args)) =
        .ok (0, List.replicate sizes.length (.object 0) ++ args) := rfl
      rw [first, ok_bind]
      dsimp only
      rw [rest]
      rfl

/-- Every conversion has arguments that match it. -/
theorem exists_converted (l : Length) (pad0 : Bool) (conversion : Conversion) :
    ∃ taken p, ∀ args, converted l pad0 (taken ++ args) conversion = .ok (p, args) := by
  cases conversion with
  | s => exact ⟨[.string 0 ⟨[], List.not_mem_nil⟩], .text [], fun args => rfl⟩
  | c => exact ⟨[.word 0], .text [0], fun args => rfl⟩
  | o => exact ⟨[.word 0], .text [0x30], fun args => by cases l <;> rfl⟩
  | d => exact ⟨[.word 0], .text [0x30], fun args => by cases l <;> rfl⟩
  | u => exact ⟨[.word 0], .text [0x30], fun args => by cases l <;> rfl⟩
  | X => exact ⟨[.word 0], .text [0x30], fun args => by cases l <;> rfl⟩
  | x => exact ⟨[.word 0], .text [0x30], fun args => by cases l <;> rfl⟩
  | p => exact ⟨[.word 0], .text [0x30], fun args => rfl⟩
  | n =>
      obtain ⟨targets, there⟩ := countTargets_objects l.storeSizes
      refine ⟨List.replicate l.storeSizes.length (.object 0), .counts targets, fun args => ?_⟩
      unfold converted
      dsimp only
      rw [there]
      rfl

/-! ## One round -/

/-- The specification behind a `%` has these parts: the flag, the length and what is left from
the conversion character on. -/
def specification (fmt : List UInt8) : Bool × Length × List UInt8 :=
  let (pad0, fmt) := getFlags fmt
  (pad0, getLength fmt)

/-- What is left of the format behind a round for the character `c`. There is nothing to go on
with if the specification is cut off by the terminator. -/
def behind (c : UInt8) (fmt : List UInt8) : Option (List UInt8) :=
  if c ≠ 0x25 then some fmt
  else if fmt.head? = some 0x25 then some fmt.tail
  else
    match (specification fmt).2.2 with
    | [] => none
    | _ :: fmt => some fmt

/-- The conversion that the round recognises, with its length. -/
def recognised (c : UInt8) (fmt : List UInt8) : Option (Length × Conversion) :=
  if c ≠ 0x25 then none
  else if fmt.head? = some 0x25 then none
  else
    match (specification fmt).2.2 with
    | [] => none
    | d :: _ => (conversionOf d).map fun conversion => ((specification fmt).2.1, conversion)

/-- How many arguments the round takes. -/
def taking (c : UInt8) (fmt : List UInt8) : Nat :=
  match recognised c fmt with
  | none => 0
  | some (l, conversion) => conversion.argCount l

section Round

variable {bufSize : BitVec 64} {c : UInt8} {fmt fmt' fmt₁ : List UInt8} {args args' : List Arg}
  {s s' : Out}

/-- A specification that is cut off is read past the terminator. -/
theorem firstPiece_cut (cut : behind c fmt = none) (args : List Arg) :
    firstPiece c fmt args = .error .formatOverrun := by
  unfold behind at cut
  split at cut
  · cases cut
  · next percent =>
      split at cut
      · cases cut
      · next single =>
          split at cut
          · next left =>
              have ended : (getLength (getFlags fmt).2).2 = [] := left
              unfold firstPiece
              rw [if_neg percent, if_neg single]
              unfold specificationPiece
              dsimp only
              rw [ended]
          · cases cut

/-- Otherwise the round goes on behind it. -/
theorem firstPiece_behind (h : behind c fmt = some fmt') (args : List Arg) :
    firstPiece c fmt args =
      match recognised c fmt with
      | none => .ok (.text (if c = 0x25 ∧ fmt.head? ≠ some 0x25 then [] else [c]), fmt', args)
      | some (l, conversion) =>
        (converted l (specification fmt).1 args conversion).map fun (p, args) =>
          (p, fmt', args) := by
  unfold behind at h
  unfold recognised firstPiece
  by_cases percent : c = 0x25
  · rw [if_neg (not_not_intro percent)] at h
    rw [if_neg (not_not_intro percent), if_neg (not_not_intro percent)]
    by_cases double : fmt.head? = some 0x25
    · rw [if_pos double] at h
      rw [if_pos double, if_pos double, if_neg (fun single => single.2 double)]
      cases h
      rfl
    · rw [if_neg double] at h
      rw [if_neg double, if_neg double, if_pos ⟨percent, double⟩]
      unfold specification at h ⊢
      dsimp only at h ⊢
      unfold specificationPiece
      dsimp only
      cases left : (getLength (getFlags fmt).2).2 with
      | nil =>
          rw [left] at h
          cases h
      | cons d rest =>
          rw [left] at h
          cases h
          dsimp only
          cases conversionOf d with
          | none => rfl
          | some conversion =>
              dsimp only [Option.map_some]
              cases converted (getLength (getFlags fmt).2).1 (getFlags fmt).1 args conversion with
              | error e => rfl
              | ok taken => rfl
  · rw [if_pos percent] at h
    rw [if_pos percent, if_pos percent, if_neg (fun single => percent single.1)]
    cases h
    rfl

theorem formatStep_cut (cut : behind c fmt = none) :
    formatStep bufSize c fmt args s = .error .formatOverrun := by
  rw [formatStep_eq, firstPiece_cut cut]
  rfl

theorem formatStep_ne_overrun (bufSize : BitVec 64) (h : behind c fmt = some fmt')
    (args : List Arg) (s : Out) :
    formatStep bufSize c fmt args s ≠ .error .formatOverrun := by
  rw [formatStep_eq, firstPiece_behind h]
  cases recognised c fmt with
  | none => exact fun h => nomatch h
  | some found =>
      have inside := converted_ne_overrun found.1 (specification fmt).1 args found.2
      dsimp only
      cases result : converted found.1 (specification fmt).1 args found.2 with
      | error e => exact fun h => inside (result.trans (congrArg Except.error (Except.error.inj h)))
      | ok taken => exact fun h => nomatch h

/-- A round goes on behind its specification and takes its arguments from the front. -/
theorem formatStep_taken (h : formatStep bufSize c fmt args s = .ok (fmt', args', s')) :
    behind c fmt = some fmt' ∧
      ∃ taken, args = taken ++ args' ∧ taken.length = taking c fmt := by
  cases left : behind c fmt with
  | none => exact nomatch (formatStep_cut left).symm.trans h
  | some fmt₁ =>
      rw [formatStep_eq, firstPiece_behind left] at h
      unfold taking
      cases found : recognised c fmt with
      | none =>
          rw [found] at h
          cases h
          exact ⟨rfl, [], rfl, rfl⟩
      | some kind =>
          rw [found] at h
          dsimp only at h
          cases result : converted kind.1 (specification fmt).1 args kind.2 with
          | error e =>
              rw [result] at h
              cases h
          | ok taken =>
              rw [result] at h
              cases h
              exact ⟨rfl, converted_taken result⟩

/-- Every complete round has arguments that match it. -/
theorem exists_firstPiece (h : behind c fmt = some fmt') :
    ∃ taken p, ∀ args, firstPiece c fmt (taken ++ args) = .ok (p, fmt', args) := by
  cases found : recognised c fmt with
  | none =>
      refine ⟨[], .text (if c = 0x25 ∧ fmt.head? ≠ some 0x25 then [] else [c]), fun args => ?_⟩
      rw [List.nil_append, firstPiece_behind h, found]
  | some kind =>
      obtain ⟨taken, p, result⟩ := exists_converted kind.1 (specification fmt).1 kind.2
      refine ⟨taken, p, fun args => ?_⟩
      rw [firstPiece_behind h, found]
      dsimp only
      rw [result]
      rfl

theorem exists_formatStep (bufSize : BitVec 64) (h : behind c fmt = some fmt') (s : Out) :
    ∃ taken s', ∀ args, formatStep bufSize c fmt (taken ++ args) s = .ok (fmt', args, s') := by
  obtain ⟨taken, p, first⟩ := exists_firstPiece h
  refine ⟨taken, emit bufSize s p, fun args => ?_⟩
  rw [formatStep_eq, first]
  rfl

theorem length_behind_le (h : behind c fmt = some fmt') : fmt'.length ≤ fmt.length := by
  obtain ⟨taken, p, first⟩ := exists_firstPiece h
  exact length_firstPiece_le (first [])

end Round

/-! ## The whole scan -/

/-- The rounds by which the loop gets from one place of the format to a later one. -/
inductive Rounds (bufSize : BitVec 64) :
    List UInt8 → List Arg → Out → List UInt8 → List Arg → Out → Prop
  | here {fmt : List UInt8} {args : List Arg} {s : Out} : Rounds bufSize fmt args s fmt args s
  | round {c : UInt8} {fmt fmt₁ fmt₂ : List UInt8} {args args₁ args₂ : List Arg} {s s₁ s₂ : Out}
    (first : formatStep bufSize c fmt args s = .ok (fmt₁, args₁, s₁))
    (rest : Rounds bufSize fmt₁ args₁ s₁ fmt₂ args₂ s₂) :
    Rounds bufSize (c :: fmt) args s fmt₂ args₂ s₂

/-- A round takes one argument if it recognises a conversion, and none otherwise. -/
def InStep (c : UInt8) (fmt : List UInt8) (args args' : List Arg) : Prop :=
  ∃ taken, args = taken ++ args' ∧
    taken.length = if (recognised c fmt).isSome then 1 else 0

/-- The format is not read past its terminator, whatever the arguments are; the scan ends, as
more rounds than the format has characters make no difference; and every round is in step. -/
structure ScansWell (fmt : CString) : Prop where
  inside : ∀ str bufSize args, vsnprintf str bufSize (some fmt) args ≠ .error .formatOverrun
  ends : ∀ bufSize args s more, formatLoop bufSize (fmt.chars.length + more) fmt.chars args s =
    formatLoop bufSize fmt.chars.length fmt.chars args s
  inStep : ∀ bufSize args s c rest args₁ s₁ rest' args₂ s₂,
    Rounds bufSize fmt.chars args s (c :: rest) args₁ s₁ →
    formatStep bufSize c rest args₁ s₁ = .ok (rest', args₂, s₂) → InStep c rest args₁ args₂

/-- A `%n` with a length modifier. -/
def isWideCount (c : UInt8) (fmt : List UInt8) : Bool :=
  match recognised c fmt with
  | some (l, .n) => l != .none
  | _ => false

/-- No specification is cut off, and there is no `%n` with a length modifier. -/
def isWellFormedFrom : Nat → List UInt8 → Bool
  | 0, _ => true
  | _ + 1, [] => true
  | fuel + 1, c :: fmt =>
    match behind c fmt with
    | none => false
    | some rest => !isWideCount c fmt && isWellFormedFrom fuel rest

def isWellFormed (fmt : CString) : Bool := isWellFormedFrom fmt.chars.length fmt.chars

theorem taking_iff (c : UInt8) (fmt : List UInt8) :
    (taking c fmt = if (recognised c fmt).isSome then 1 else 0) ↔ isWideCount c fmt = false := by
  unfold taking isWideCount
  cases recognised c fmt with
  | none => exact iff_of_true rfl rfl
  | some found =>
      obtain ⟨l, conversion⟩ := found
      cases conversion <;> cases l <;> decide

theorem formatLoop_of_le (bufSize : BitVec 64) (fmt : List UInt8) (args : List Arg) (s : Out)
    (more : Nat) :
    formatLoop bufSize (fmt.length + more) fmt args s =
      formatLoop bufSize fmt.length fmt args s := by
  rw [formatLoop_eq, formatLoop_eq, piecesFrom_of_le args (Nat.le_add_right _ _)]

/-- The parts of a well-formed format. -/
theorem isWellFormedFrom_cons {fuel : Nat} {c : UInt8} {fmt : List UInt8}
    (h : isWellFormedFrom (fuel + 1) (c :: fmt) = true) :
    ∃ rest, behind c fmt = some rest ∧ isWideCount c fmt = false ∧
      isWellFormedFrom fuel rest = true := by
  unfold isWellFormedFrom at h
  cases left : behind c fmt with
  | none =>
      rw [left] at h
      cases h
  | some rest =>
      rw [left] at h
      dsimp only at h
      rw [Bool.and_eq_true, Bool.not_eq_true'] at h
      exact ⟨rest, rfl, h.1, h.2⟩

theorem formatLoop_ne_overrun (bufSize : BitVec 64) {fuel : Nat} {fmt : List UInt8}
    (h : isWellFormedFrom fuel fmt = true) (args : List Arg) (s : Out) :
    formatLoop bufSize fuel fmt args s ≠ .error .formatOverrun := by
  induction fuel generalizing fmt args s with
  | zero => exact fun h => nomatch h
  | succ fuel ih =>
      cases fmt with
      | nil => exact fun h => nomatch h
      | cons c fmt =>
          obtain ⟨rest, left, -, remaining⟩ := isWellFormedFrom_cons h
          unfold formatLoop
          cases round : formatStep bufSize c fmt args s with
          | error e =>
              have inside := formatStep_ne_overrun bufSize left args s
              rw [round] at inside
              exact fun h => inside (congrArg Except.error (Except.error.inj h))
          | ok next =>
              obtain ⟨fmt', args', s'⟩ := next
              have here := (formatStep_taken round).1
              rw [left] at here
              cases here
              exact ih remaining args' s'

/-- The rounds of a well-formed format leave a well-formed rest. -/
theorem Rounds.isWellFormed {bufSize : BitVec 64} {fmt fmt' : List UInt8} {args args' : List Arg}
    {s s' : Out} (rounds : Rounds bufSize fmt args s fmt' args' s')
    (h : ∃ fuel, fmt.length ≤ fuel ∧ isWellFormedFrom fuel fmt = true) :
    ∃ fuel, fmt'.length ≤ fuel ∧ isWellFormedFrom fuel fmt' = true := by
  induction rounds with
  | here => exact h
  | round first rest ih =>
      apply ih
      obtain ⟨fuel, enough, wellFormed⟩ := h
      cases fuel with
      | zero => cases enough
      | succ fuel =>
          obtain ⟨left, -⟩ := formatStep_taken first
          obtain ⟨rest', left', -, remaining⟩ := isWellFormedFrom_cons wellFormed
          rw [left] at left'
          cases left'
          have shorter := length_behind_le left
          rw [List.length_cons] at enough
          exact ⟨fuel, by omega, remaining⟩

/-- A format that is not well formed goes wrong with some arguments. -/
theorem exists_misuse (bufSize : BitVec 64) {fuel : Nat} {fmt : List UInt8}
    (bad : isWellFormedFrom fuel fmt = false) (s : Out) :
    ∃ args, formatLoop bufSize fuel fmt args s = .error .formatOverrun ∨
      ∃ c rest args₁ s₁ rest' args₂ s₂, Rounds bufSize fmt args s (c :: rest) args₁ s₁ ∧
        formatStep bufSize c rest args₁ s₁ = .ok (rest', args₂, s₂) ∧
        ¬ InStep c rest args₁ args₂ := by
  induction fuel generalizing fmt s with
  | zero => cases bad
  | succ fuel ih =>
      cases fmt with
      | nil => cases bad
      | cons c fmt =>
          unfold isWellFormedFrom at bad
          cases left : behind c fmt with
          | none =>
              refine ⟨[], Or.inl ?_⟩
              unfold formatLoop
              rw [formatStep_cut left]
              rfl
          | some rest =>
              rw [left] at bad
              dsimp only at bad
              rw [Bool.and_eq_false_iff, Bool.not_eq_false'] at bad
              obtain ⟨taken, s', round⟩ := exists_formatStep bufSize left s
              rcases bad with wide | later
              · refine ⟨taken ++ [], Or.inr ⟨c, fmt, _, s, rest, [], s', .here, round [], ?_⟩⟩
                intro inStep
                obtain ⟨taken', same, length_⟩ := inStep
                obtain ⟨-, taken'', same', length'⟩ := formatStep_taken (round [])
                have equal : taken' = taken'' := List.append_cancel_right (same.symm.trans same')
                rw [← equal] at length'
                have narrow := (taking_iff c fmt).mp (length'.symm.trans length_)
                cases wide.symm.trans narrow
              · obtain ⟨args, misuse⟩ := ih later s'
                refine ⟨taken ++ args, misuse.imp (fun overrun => ?_) fun outOfStep => ?_⟩
                · unfold formatLoop
                  rw [round args, ok_bind]
                  exact overrun
                · obtain ⟨d, rest₁, args₁, s₁, rest₂, args₂, s₂, rounds, last, wrong⟩ := outOfStep
                  exact ⟨d, rest₁, args₁, s₁, rest₂, args₂, s₂, .round (round args) rounds, last,
                    wrong⟩

/-- The scan stays inside the format, ends and takes one argument for each conversion if and only
if no specification is cut off and no `%n` has a length modifier. -/
theorem scansWell_iff (fmt : CString) : ScansWell fmt ↔ isWellFormed fmt = true := by
  constructor
  · intro well
    by_contra bad
    obtain ⟨args, misuse⟩ :=
      exists_misuse 0 (Bool.eq_false_iff.mpr bad) { str := none, buf := fun _ => 0 }
    rcases misuse with overrun | ⟨c, rest, args₁, s₁, rest', args₂, s₂, rounds, round, outOfStep⟩
    · apply well.inside none 0 args
      unfold vsnprintf
      dsimp only [Option.map_none, Option.getD_none]
      rw [overrun]
      rfl
    · exact outOfStep (well.inStep 0 args _ c rest args₁ s₁ rest' args₂ s₂ rounds round)
  · intro wellFormed
    constructor
    case inside =>
      intro str bufSize args
      refine bind_ne_error ?_ fun s h => nomatch h
      exact formatLoop_ne_overrun bufSize wellFormed args _
    case ends =>
      exact fun bufSize args s more => formatLoop_of_le bufSize fmt.chars args s more
    case inStep =>
      intro bufSize args s c rest args₁ s₁ rest' args₂ s₂ rounds round
      obtain ⟨fuel, enough, remaining⟩ :=
        rounds.isWellFormed ⟨_, Nat.le_refl _, wellFormed⟩
      cases fuel with
      | zero => cases enough
      | succ fuel =>
          obtain ⟨-, -, narrow, -⟩ := isWellFormedFrom_cons remaining
          obtain ⟨-, taken, same, length_⟩ := formatStep_taken round
          exact ⟨taken, same, length_.trans ((taking_iff c rest).mpr narrow)⟩

/-- `"%"`, `"%l"` and `"%0"` are read past the terminator, and `"%hhn"` takes six arguments. -/
theorem scansWell_fails :
    ¬ ScansWell ⟨[0x25], by decide⟩ ∧ ¬ ScansWell ⟨[0x25, 0x6C], by decide⟩ ∧
      ¬ ScansWell ⟨[0x25, 0x30], by decide⟩ ∧ ¬ ScansWell ⟨[0x25, 0x68, 0x68, 0x6E], by decide⟩ := by
  refine ⟨fun well => ?_, fun well => ?_, fun well => ?_, fun well => ?_⟩
  · exact well.inside none 0 [] rfl
  · exact well.inside none 0 [] rfl
  · exact well.inside none 0 [] rfl
  · obtain ⟨taken, six, one⟩ := well.inStep 0 (List.replicate 6 (.object 0))
      { str := none, buf := fun _ => 0 } _ _ _ _ _ _ _ .here rfl
    have length_ : 6 = (taken ++ []).length := congrArg List.length six
    rw [List.append_nil, one] at length_
    exact absurd length_ (by decide)

end Tyleros.Libc
