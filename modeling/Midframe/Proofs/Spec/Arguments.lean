import Midframe.Proofs.Outcome
import Midframe.Proofs.Spec.Grammar

/-!
# Arguments follow the grammar

Arguments are read before it is known what the keyword makes of them. `ArgumentList` and
`Parenthesised` describe what is read then; what each keyword makes of such arguments is exactly
what the grammar derives from their tokens, and what the grammar derives can be read as arguments.

Numbers of a text carry no sign of their own (`IsUnsigned`), so that a kernel size behind a `-` is
refused for its value.
-/

namespace Midframe

namespace BlockSpec

open Grammar

/-- The kinds of the tokens that are left. -/
def kinds (items : List Located) : List Token := items.map Located.token

@[simp] theorem kinds_nil : kinds [] = [] := rfl

@[simp] theorem kinds_cons (l : Located) (rest : List Located) :
    kinds (l :: rest) = l.token :: kinds rest := rfl

@[simp] theorem kinds_append (items rest : List Located) :
    kinds (items ++ rest) = kinds items ++ kinds rest := List.map_append

theorem kinds_eq_nil {items : List Located} : kinds items = [] ↔ items = [] := List.map_eq_nil_iff

theorem kinds_eq_cons {items : List Located} {t : Token} {ts : List Token} :
    kinds items = t :: ts ↔ ∃ l rest, items = l :: rest ∧ l.token = t ∧ kinds rest = ts := by
  simp only [kinds, List.map_eq_cons_iff]

theorem kinds_eq_append {items : List Located} {ts ts' : List Token} :
    kinds items = ts ++ ts' ↔ ∃ pre rest, items = pre ++ rest ∧ kinds pre = ts ∧ kinds rest = ts' :=
  List.map_eq_append_iff

/-- The numbers among the tokens carry no minus sign. -/
def IsUnsigned (items : List Located) : Prop :=
  ∀ l ∈ items, ∀ v, l.token = .number v → signOf v.toModel.unpack = .positive

/-! ## Arguments -/

/-- The tokens of one argument. -/
inductive Argued : List Located → LocatedArgument → Prop
  /-- A number behind a sign. -/
  | negative {v : Float} {start stop start' stop' : Nat} :
      Argued [⟨.minus, start, stop⟩, ⟨.number v, start', stop'⟩] ⟨.number (-v), start⟩
  /-- A number. -/
  | number {v : Float} {start stop : Nat} : Argued [⟨.number v, start, stop⟩] ⟨.number v, start⟩
  /-- A word. -/
  | word {name : String} {start stop : Nat} :
    Argued [⟨.ident name, start, stop⟩] ⟨.word name, start⟩

/-- The tokens of arguments that are separated by commas. -/
inductive ArgumentList : List Located → List LocatedArgument → Prop
  /-- A single argument. -/
  | last {items : List Located} {a : LocatedArgument} : Argued items a → ArgumentList items [a]
  /-- An argument in front of others. -/
  | more {items rest : List Located} {a : LocatedArgument} {arguments : List LocatedArgument}
      {start stop : Nat} : Argued items a → ArgumentList rest arguments →
      ArgumentList (items ++ ⟨.comma, start, stop⟩ :: rest) (a :: arguments)

/-- The tokens behind a keyword. -/
inductive Parenthesised : List Located → List LocatedArgument → Prop
  /-- No parentheses. -/
  | absent : Parenthesised [] []
  /-- Nothing between the parentheses. -/
  | empty {start stop start' stop' : Nat} :
      Parenthesised [⟨.lparen, start, stop⟩, ⟨.rparen, start', stop'⟩] []
  /-- Arguments between the parentheses. -/
  | filled {inner : List Located} {arguments : List LocatedArgument}
      {start stop start' stop' : Nat} : ArgumentList inner arguments →
      Parenthesised (⟨.lparen, start, stop⟩ :: (inner ++ [⟨.rparen, start', stop'⟩])) arguments

variable {stop : Nat} {items rest : List Located} {arguments : List LocatedArgument}

theorem readArgument_eq_ok {a : LocatedArgument} :
    readArgument stop items = .ok (a, rest) ↔ ∃ pre, items = pre ++ rest ∧ Argued pre a := by
  constructor
  · intro h
    unfold readArgument at h
    split at h
    · obtain ⟨rfl, rfl⟩ : _ ∧ _ := by simpa using h
      exact ⟨_, rfl, .negative⟩
    · exact absurd h (by simp [failAt])
    · obtain ⟨rfl, rfl⟩ : _ ∧ _ := by simpa using h
      exact ⟨_, rfl, .number⟩
    · obtain ⟨rfl, rfl⟩ : _ ∧ _ := by simpa using h
      exact ⟨_, rfl, .word⟩
    · exact absurd h (by simp [failAt])
  · rintro ⟨pre, rfl, h⟩
    cases h <;> rfl

theorem readArguments_sound (h : readArguments stop items = .ok (arguments, rest)) :
    ∃ inner start close, items = inner ++ ⟨.rparen, start, close⟩ :: rest ∧
      ArgumentList inner arguments := by
  fun_induction readArguments stop items generalizing arguments rest with
  | case1 => exact absurd h (by simp)
  | case2 => exact absurd h (by simp)
  | case3 items a start close rest' found arguments' rest'' found' ih =>
    obtain ⟨rfl, rfl⟩ : _ ∧ _ := by simpa using h
    obtain ⟨pre, rfl, ha⟩ := readArgument_eq_ok.mp found
    obtain ⟨inner, start', close', rfl, hinner⟩ := ih found'
    exact ⟨pre ++ ⟨.comma, start, close⟩ :: inner, start', close', by simp, .more ha hinner⟩
  | case4 items a start close rest' found =>
    obtain ⟨rfl, rfl⟩ : _ ∧ _ := by simpa using h
    obtain ⟨pre, rfl, ha⟩ := readArgument_eq_ok.mp found
    exact ⟨pre, start, close, rfl, .last ha⟩
  | case5 => exact absurd h (by simp [failAt])

/-- Reading arguments, unfolded once. -/
theorem readArguments_eq (stop : Nat) (items : List Located) :
    readArguments stop items = match readArgument stop items with
      | .error e => .error e
      | .ok (a, ⟨.comma, _, _⟩ :: rest) => match readArguments stop rest with
        | .error e => .error e
        | .ok (arguments, rest) => .ok (a :: arguments, rest)
      | .ok (a, ⟨.rparen, _, _⟩ :: rest) => .ok ([a], rest)
      | .ok (_, rest) => failAt stop rest (.expected .rparen) := by
  rw [readArguments]
  split
  · simp only [*]
  · next rest found => cases hread : readArguments stop rest <;> simp only [found, hread]
  · simp only [*]
  · simp only [*]

theorem readArguments_complete (stop : Nat) {inner : List Located}
    (h : ArgumentList inner arguments) (rest : List Located) (start close : Nat) :
    readArguments stop (inner ++ ⟨.rparen, start, close⟩ :: rest) = .ok (arguments, rest) := by
  induction h with
  | last ha =>
    rw [readArguments_eq, readArgument_eq_ok.mpr ⟨_, rfl, ha⟩]
  | more ha _ ih =>
    rw [readArguments_eq, List.append_assoc, readArgument_eq_ok.mpr ⟨_, rfl, ha⟩]
    simp only [List.cons_append, ih]

/-- The tokens do not start with an opening parenthesis. -/
def IsBare (items : List Located) : Prop := ∀ l ∈ items.head?, l.token ≠ .lparen

theorem readParentheses_sound (h : readParentheses stop items = .ok (arguments, rest)) :
    ∃ pre, items = pre ++ rest ∧ Parenthesised pre arguments := by
  unfold readParentheses at h
  split at h
  · obtain ⟨rfl, rfl⟩ : _ ∧ _ := by simpa using h
    exact ⟨_, rfl, .empty⟩
  · next start close items _ =>
    obtain ⟨inner, start', close', rfl, hinner⟩ := readArguments_sound h
    exact ⟨⟨.lparen, start, close⟩ :: (inner ++ [⟨.rparen, start', close'⟩]), by simp,
      .filled hinner⟩
  · obtain ⟨rfl, rfl⟩ : _ ∧ _ := by simpa using h
    exact ⟨[], rfl, .absent⟩

/-- Arguments do not start with a closing parenthesis. -/
theorem ArgumentList.head_ne {inner : List Located} (h : ArgumentList inner arguments) :
    ∃ l rest, inner = l :: rest ∧ l.token ≠ .rparen := by
  cases h with
  | last ha => cases ha <;> exact ⟨_, _, rfl, by simp⟩
  | more ha _ => cases ha <;> exact ⟨_, _, rfl, by simp⟩

theorem readParentheses_complete (stop : Nat) {pre : List Located} (h : Parenthesised pre arguments)
    (hrest : IsBare rest) : readParentheses stop (pre ++ rest) = .ok (arguments, rest) := by
  cases h with
  | absent =>
    cases rest with
    | nil => rfl
    | cons l rest =>
      obtain ⟨token, start, close⟩ := l
      have : token ≠ .lparen := hrest _ rfl
      unfold readParentheses
      split <;> simp_all
  | empty => rfl
  | @filled inner arguments start close start' close' hinner =>
    -- Arguments that start with `)` would be taken for empty parentheses.
    obtain ⟨⟨token, _, _⟩, behind, rfl, hne⟩ := hinner.head_ne
    have hread := readArguments_complete stop hinner rest start' close'
    rw [← hread]
    unfold readParentheses
    split <;> simp_all

/-! ## What the keywords make of their arguments -/

theorem ofKeyword?_border_eq_some {name : String} {b : Border} :
    Border.ofKeyword? name = some b ↔ name = b.keyword := by
  constructor
  · intro h
    unfold Border.ofKeyword? at h
    split at h <;> cases h <;> rfl
  · rintro rfl
    cases b <;> rfl

theorem ofKeyword?_upsampling_eq_some {name : String} {a : Upsampling} :
    Upsampling.ofKeyword? name = some a ↔ name = a.keyword := by
  constructor
  · intro h
    unfold Upsampling.ofKeyword? at h
    split at h <;> cases h <;> rfl
  · rintro rfl
    cases a <;> rfl

theorem readBorder_cons_eq_ok {keyword : String} {default b : Border} {a : LocatedArgument} :
    Op.readBorder keyword default (a :: arguments) = .ok b ↔
      ∃ b' : Border, a.argument = .word b'.keyword ∧
        Op.readBorder keyword b' arguments = .ok b := by
  obtain ⟨argument, start⟩ := a
  cases argument with
  | number v => simp [Op.readBorder, Op.refuse]
  | word name =>
    simp only [Op.readBorder, Argument.word.injEq, ← ofKeyword?_border_eq_some]
    cases Border.ofKeyword? name with
    | none => simp [Op.refuse]
    | some b' => simp

theorem borders_singleton_iff {t : Token} {b : Border} :
    Borders [t] b ↔ t = .ident b.keyword := by
  constructor
  · intro h
    cases h
    rfl
  · rintro rfl
    exact .last b

theorem borders_comma_iff {t : Token} {ts : List Token} {b : Border} :
    Borders (t :: .comma :: ts) b ↔ ∃ b' : Border, t = .ident b'.keyword ∧ Borders ts b := by
  constructor
  · intro h
    cases h with
    | more b' h => exact ⟨b', rfl, h⟩
  · rintro ⟨b', rfl, h⟩
    exact .more b' h

theorem not_borders_of_ne {t : Token} {ts : List Token} {b : Border}
    (ht : ∀ name, t ≠ .ident name) : ¬ Borders (t :: ts) b := by
  intro h
  cases h <;> exact ht _ rfl

theorem readBorder_eq_ok {inner : List Located} (h : ArgumentList inner arguments)
    {keyword : String} {default b : Border} :
    Op.readBorder keyword default arguments = .ok b ↔ Borders (kinds inner) b := by
  induction h generalizing default with
  | last ha =>
    rw [readBorder_cons_eq_ok]
    cases ha with
    | negative | number => simp [not_borders_of_ne]
    | word => simp [Op.readBorder, borders_singleton_iff, eq_comm]
  | more ha _ ih =>
    rw [readBorder_cons_eq_ok]
    simp only [ih]
    cases ha with
    | negative | number => simp [not_borders_of_ne]
    | word => simp [borders_comma_iff]

theorem kernelSize?_eq_some {v : Float} {n : Nat} :
    Op.kernelSize? v = some n ↔ IsKernelSize v n := by
  simp only [Op.kernelSize?, Option.ite_none_right_eq_some, Bool.and_eq_true, decide_eq_true_eq,
    Option.some.injEq, IsKernelSize]
  have hmax : TextFlaw.maxKernel = 255 := rfl
  constructor
  · rintro ⟨⟨⟨heq, hlow⟩, hhigh⟩, rfl⟩
    exact ⟨(ofNat_beq_iff hlow (by omega)).mp heq, hlow, hhigh⟩
  · rintro ⟨hvalue, hlow, hhigh⟩
    rw [truncate_of_exactValue hlow (by omega) hvalue]
    exact ⟨⟨⟨(ofNat_beq_iff hlow (by omega)).mpr hvalue, hlow⟩, hhigh⟩, rfl⟩

/-- The negative of a number without minus sign is no size. -/
theorem kernelSize?_neg {v : Float} (h : signOf v.toModel.unpack = .positive) :
    Op.kernelSize? (-v) = none := by
  refine Option.eq_none_iff_forall_ne_some.mpr fun n hn => ?_
  obtain ⟨hvalue, hlow, -⟩ := kernelSize?_eq_some.mp hn
  exact exactValue_neg_ne h (by exact_mod_cast hlow) hvalue

theorem kernel_singleton_iff {t : Token} {n : Nat} {b : Border} :
    Kernel [t] (n, b) ↔
      (∃ v, t = .number v ∧ IsKernelSize v n ∧ b = .zeros) ∨ t = .ident b.keyword ∧ n = 3 := by
  constructor
  · intro h
    cases h with
    | size h => exact .inl ⟨_, rfl, h, rfl⟩
    | borders h => exact .inr ⟨borders_singleton_iff.mp h, rfl⟩
  · rintro (⟨v, rfl, h, rfl⟩ | ⟨rfl, rfl⟩)
    · exact .size h
    · exact .borders (.last b)

theorem kernel_comma_iff {t : Token} {ts : List Token} {n : Nat} {b : Border} :
    Kernel (t :: .comma :: ts) (n, b) ↔
      (∃ v, t = .number v ∧ IsKernelSize v n ∧ Borders ts b) ∨
        (∃ b' : Border, t = .ident b'.keyword) ∧ Borders ts b ∧ n = 3 := by
  constructor
  · intro h
    cases h with
    | sizeBorders h hb => exact .inl ⟨_, rfl, h, hb⟩
    | borders h =>
      obtain ⟨b', ht, hb⟩ := borders_comma_iff.mp h
      exact .inr ⟨⟨b', ht⟩, hb, rfl⟩
  · rintro (⟨v, rfl, h, hb⟩ | ⟨⟨b', rfl⟩, hb, rfl⟩)
    · exact .sizeBorders h hb
    · exact .borders (.more b' hb)

theorem not_kernel_nil {k : Nat × Border} : ¬ Kernel [] k := by
  intro h
  cases h with
  | borders h => cases h

theorem not_kernel_minus {ts : List Token} {n : Nat} {b : Border} :
    ¬ Kernel (.minus :: ts) (n, b) := by
  intro h
  cases h with
  | borders h => exact not_borders_of_ne (by simp) h

theorem readKernel_number_eq_ok {keyword : String} {v : Float} {start n : Nat} {b : Border} :
    Op.readKernel keyword (⟨.number v, start⟩ :: arguments) = .ok (n, b) ↔
      Op.kernelSize? v = some n ∧ Op.readBorder keyword .zeros arguments = .ok b := by
  rw [Op.readKernel]
  cases Op.kernelSize? v with
  | none => simp
  | some size =>
    cases Op.readBorder keyword .zeros arguments <;> simp [Except.map]

/-- A size behind a sign is refused, whatever follows. -/
theorem readKernel_negative_ne_ok {keyword : String} {v : Float} {start : Nat} {k : Nat × Border}
    (h : signOf v.toModel.unpack = .positive) :
    Op.readKernel keyword (⟨.number (-v), start⟩ :: arguments) ≠ .ok k := by
  intro hread
  have hsize := (readKernel_number_eq_ok.mp hread).1
  rw [kernelSize?_neg h] at hsize
  cases hsize

theorem readKernel_word_eq_ok {keyword name : String} {start n : Nat} {b : Border} :
    Op.readKernel keyword (⟨.word name, start⟩ :: arguments) = .ok (n, b) ↔
      n = 3 ∧ Op.readBorder keyword .zeros (⟨.word name, start⟩ :: arguments) = .ok b := by
  have hread : Op.readKernel keyword (⟨.word name, start⟩ :: arguments)
      = (Op.readBorder keyword .zeros (⟨.word name, start⟩ :: arguments)).map fun b => (3, b) := rfl
  rw [hread]
  cases Op.readBorder keyword .zeros (⟨.word name, start⟩ :: arguments) <;>
    simp [Except.map, eq_comm]

theorem readKernel_eq_ok {inner : List Located} (h : ArgumentList inner arguments)
    (hsign : IsUnsigned inner) {keyword : String} {n : Nat} {b : Border} :
    Op.readKernel keyword arguments = .ok (n, b) ↔ Kernel (kinds inner) (n, b) := by
  cases h with
  | last ha =>
    cases ha with
    | @negative v _ _ start' stop' =>
      -- The reader negates the number and refuses its value; the grammar has no sign here at all.
      have hv := hsign ⟨.number v, start', stop'⟩ (by simp) v rfl
      simp [not_kernel_minus, readKernel_negative_ne_ok hv]
    | number =>
      rw [readKernel_number_eq_ok, kernelSize?_eq_some]
      simp [Op.readBorder, kernel_singleton_iff, eq_comm]
    | word =>
      rw [readKernel_word_eq_ok, readBorder_cons_eq_ok]
      simp [Op.readBorder, kernel_singleton_iff, and_comm]
  | more ha hrest =>
    cases ha with
    | @negative v _ _ start' stop' =>
      have hv := hsign ⟨.number v, start', stop'⟩ (by simp) v rfl
      simp [not_kernel_minus, readKernel_negative_ne_ok hv]
    | number =>
      rw [readKernel_number_eq_ok, kernelSize?_eq_some, readBorder_eq_ok hrest]
      simp [kernel_comma_iff]
    | word =>
      rw [readKernel_word_eq_ok, readBorder_cons_eq_ok]
      simp only [readBorder_eq_ok hrest]
      simp [kernel_comma_iff, and_comm, and_assoc]

theorem algorithm_iff {ts : List Token} {a : Upsampling} :
    Algorithm ts a ↔ ts = [.ident a.keyword] := by
  constructor
  · intro h
    cases h
    rfl
  · rintro rfl
    exact .word a

theorem readUpsampling_eq_ok {inner : List Located} (h : ArgumentList inner arguments)
    {start : Nat} {a : Upsampling} :
    Op.readUpsampling start arguments = .ok a ↔ Algorithm (kinds inner) a := by
  rw [algorithm_iff]
  cases h with
  | last ha =>
    cases ha with
    | negative | number => simp [Op.readUpsampling, Op.refuse]
    | @word name =>
      simp only [Op.readUpsampling, kinds_cons, kinds_nil, List.cons.injEq, Token.ident.injEq,
        and_true, ← ofKeyword?_upsampling_eq_some]
      cases Upsampling.ofKeyword? name <;> simp [Op.refuse]
  | more ha hrest =>
    cases hrest <;> cases ha <;> simp [Op.readUpsampling]

theorem readSlope_eq_ok {inner : List Located} (h : ArgumentList inner arguments)
    {start : Nat} {slope : Float32} :
    Op.readSlope start arguments = .ok slope ↔ Slope (kinds inner) slope := by
  cases h with
  | last ha =>
    cases ha with
    | @negative v =>
      constructor
      · intro h
        cases h
        exact .negated v
      · intro h
        cases h
        rfl
    | @number v =>
      constructor
      · intro h
        cases h
        exact .plain v
      · intro h
        cases h
        rfl
    | word => exact ⟨nofun, nofun⟩
  | more ha hrest =>
    constructor
    · intro h
      cases hrest <;> exact absurd h (by simp [Op.readSlope])
    · intro h
      cases ha <;> exact absurd h nofun

section Bracketed

variable {α : Type} {default a : α} {Inner : List Token → α → Prop}

theorem bracketed_nil_iff : Bracketed default Inner [] a ↔ default = a := by
  constructor
  · intro h
    cases h
    rfl
  · rintro rfl
    exact .absent

theorem bracketed_parentheses_iff {ts : List Token} :
    Bracketed default Inner (.lparen :: (ts ++ [.rparen])) a ↔
      ts = [] ∧ default = a ∨ Inner ts a := by
  constructor
  · -- The tokens are no pattern of constructors, so that their shape is kept in an equation.
    generalize hall : Token.lparen :: (ts ++ [.rparen]) = all
    intro h
    cases h with
    | absent => exact absurd hall (by simp)
    | empty => exact .inl ⟨by simpa using hall, rfl⟩
    | filled h =>
      obtain rfl : ts = _ := by simpa using hall
      exact .inr h
  · rintro (⟨rfl, rfl⟩ | h)
    · exact .empty
    · exact .filled h

/-- Reading behind a keyword follows the grammar if reading its arguments does. -/
theorem bracketed_iff {read : List LocatedArgument → Except TextFault α} {pre : List Located}
    (h : Parenthesised pre arguments) (hempty : read [] = .ok default) (hnil : ¬ Inner [] a)
    (hinner : ∀ {inner}, ArgumentList inner arguments → IsUnsigned inner →
      (read arguments = .ok a ↔ Inner (kinds inner) a)) (hsign : IsUnsigned pre) :
    read arguments = .ok a ↔ Bracketed default Inner (kinds pre) a := by
  cases h with
  | absent => rw [hempty, kinds_nil, bracketed_nil_iff, Except.ok.injEq]
  | empty =>
    have hiff := @bracketed_parentheses_iff _ default a Inner []
    rw [hempty, Except.ok.injEq]
    exact ⟨fun h => hiff.mpr (.inl ⟨rfl, h⟩), fun h => (hiff.mp h).elim And.right (absurd · hnil)⟩
  | @filled inner _ _ _ _ _ hlist =>
    have hne : kinds inner ≠ [] := by
      obtain ⟨l, behind, rfl, -⟩ := hlist.head_ne
      exact List.cons_ne_nil _ _
    rw [kinds_cons, kinds_append, kinds_cons, kinds_nil, bracketed_parentheses_iff,
      hinner hlist fun l hl => hsign l (by simp [hl])]
    exact ⟨.inr, fun h => h.resolve_left fun h => hne h.1⟩

/-- What the grammar derives behind a keyword can be read as arguments. -/
theorem exists_parenthesised {ts : List Token} (h : Bracketed default Inner ts a)
    (hinner : ∀ {ts}, Inner ts a → ∀ {inner}, kinds inner = ts →
      ∃ arguments, ArgumentList inner arguments) {pre : List Located} (hts : kinds pre = ts) :
    ∃ arguments, Parenthesised pre arguments := by
  cases h with
  | absent =>
    rw [kinds_eq_nil.mp hts]
    exact ⟨_, .absent⟩
  | empty =>
    obtain ⟨⟨_, start, close⟩, rest, rfl, rfl, hrest⟩ := kinds_eq_cons.mp hts
    obtain ⟨⟨_, start', close'⟩, behind, rfl, rfl, hbehind⟩ := kinds_eq_cons.mp hrest
    obtain rfl := kinds_eq_nil.mp hbehind
    exact ⟨_, .empty⟩
  | filled h =>
    obtain ⟨⟨_, start, close⟩, rest, rfl, rfl, hrest⟩ := kinds_eq_cons.mp hts
    obtain ⟨inner, last, rfl, rfl, hlast⟩ := kinds_eq_append.mp hrest
    obtain ⟨⟨_, start', close'⟩, behind, rfl, rfl, hbehind⟩ := kinds_eq_cons.mp hlast
    obtain rfl := kinds_eq_nil.mp hbehind
    obtain ⟨arguments, hlist⟩ := hinner h rfl
    exact ⟨arguments, .filled hlist⟩

end Bracketed

/-! ## Grammar arguments are arguments -/

theorem argued_of_ident {items : List Located} {name : String} (h : kinds items = [.ident name]) :
    ∃ a, Argued items a := by
  obtain ⟨⟨_, start, close⟩, rest, rfl, rfl, hrest⟩ := kinds_eq_cons.mp h
  obtain rfl := kinds_eq_nil.mp hrest
  exact ⟨_, .word⟩

theorem argued_of_number {items : List Located} {v : Float} (h : kinds items = [.number v]) :
    ∃ a, Argued items a := by
  obtain ⟨⟨_, start, close⟩, rest, rfl, rfl, hrest⟩ := kinds_eq_cons.mp h
  obtain rfl := kinds_eq_nil.mp hrest
  exact ⟨_, .number⟩

theorem argued_of_negative {items : List Located} {v : Float}
    (h : kinds items = [.minus, .number v]) : ∃ a, Argued items a := by
  obtain ⟨⟨_, start, close⟩, rest, rfl, rfl, hrest⟩ := kinds_eq_cons.mp h
  obtain ⟨⟨_, start', close'⟩, behind, rfl, rfl, hbehind⟩ := kinds_eq_cons.mp hrest
  obtain rfl := kinds_eq_nil.mp hbehind
  exact ⟨_, .negative⟩

/-- A comma splits the tokens. -/
theorem argumentList_of_comma {inner : List Located} {t : Token} {ts : List Token}
    (h : kinds inner = t :: .comma :: ts)
    (hfirst : ∀ {items}, kinds items = [t] → ∃ a, Argued items a)
    (hrest : ∀ {items}, kinds items = ts → ∃ arguments, ArgumentList items arguments) :
    ∃ arguments, ArgumentList inner arguments := by
  obtain ⟨first, behind, rfl, rfl, hbehind⟩ := kinds_eq_cons.mp h
  obtain ⟨⟨_, start, close⟩, rest, rfl, rfl, hts⟩ := kinds_eq_cons.mp hbehind
  obtain ⟨a, ha⟩ := @hfirst [first] rfl
  obtain ⟨arguments, hlist⟩ := hrest hts
  exact ⟨a :: arguments, .more ha hlist⟩

theorem argumentList_of_borders {ts : List Token} {b : Border} (h : Borders ts b) :
    ∀ {inner}, kinds inner = ts → ∃ arguments, ArgumentList inner arguments := by
  induction h with
  | last b =>
    intro inner hts
    obtain ⟨a, ha⟩ := argued_of_ident hts
    exact ⟨_, .last ha⟩
  | more b _ ih => exact fun hts => argumentList_of_comma hts argued_of_ident ih

theorem argumentList_of_kernel {ts : List Token} {k : Nat × Border} (h : Kernel ts k)
    {inner : List Located} (hts : kinds inner = ts) :
    ∃ arguments, ArgumentList inner arguments := by
  cases h with
  | size _ =>
    obtain ⟨a, ha⟩ := argued_of_number hts
    exact ⟨_, .last ha⟩
  | sizeBorders _ h => exact argumentList_of_comma hts argued_of_number (argumentList_of_borders h)
  | borders h => exact argumentList_of_borders h hts

theorem argumentList_of_algorithm {ts : List Token} {a : Upsampling} (h : Algorithm ts a)
    {inner : List Located} (hts : kinds inner = ts) :
    ∃ arguments, ArgumentList inner arguments := by
  obtain ⟨a, ha⟩ := argued_of_ident (hts.trans (algorithm_iff.mp h))
  exact ⟨_, .last ha⟩

theorem argumentList_of_slope {ts : List Token} {slope : Float32} (h : Slope ts slope)
    {inner : List Located} (hts : kinds inner = ts) :
    ∃ arguments, ArgumentList inner arguments := by
  cases h with
  | plain v =>
    obtain ⟨a, ha⟩ := argued_of_number hts
    exact ⟨_, .last ha⟩
  | negated v =>
    obtain ⟨a, ha⟩ := argued_of_negative hts
    exact ⟨_, .last ha⟩

/-! ## Keywords -/

theorem operation_iff {keyword : String} {ts : List Token} {op : Op} :
    Operation (.ident keyword :: ts) op ↔
      (keyword = "evenize" ∧ ∃ b, Bracketed .zeros Borders ts b ∧ .evenize b = op) ∨
      (keyword = "conv" ∧ ∃ k : Nat × Border, Bracketed (3, .zeros) Kernel ts k ∧
        .conv k.1 k.2 = op) ∨
      (keyword = "sconv" ∧ ∃ k : Nat × Border, Bracketed (3, .zeros) Kernel ts k ∧
        .sconv k.1 k.2 = op) ∨
      (keyword = "up" ∧ ∃ a, Bracketed .bilinear Algorithm ts a ∧ .up a = op) ∨
      (keyword = "prelu" ∧ ∃ slope, Bracketed 0.25 Slope ts slope ∧ .prelu slope = op) := by
  constructor
  · intro h
    cases h with
    | evenize h => exact .inl ⟨rfl, _, h, rfl⟩
    | conv h => exact .inr (.inl ⟨rfl, _, h, rfl⟩)
    | sconv h => exact .inr (.inr (.inl ⟨rfl, _, h, rfl⟩))
    | up h => exact .inr (.inr (.inr (.inl ⟨rfl, _, h, rfl⟩)))
    | prelu h => exact .inr (.inr (.inr (.inr ⟨rfl, _, h, rfl⟩)))
  · rintro (⟨rfl, _, h, rfl⟩ | ⟨rfl, _, h, rfl⟩ | ⟨rfl, _, h, rfl⟩ | ⟨rfl, _, h, rfl⟩ |
      ⟨rfl, _, h, rfl⟩)
    · exact .evenize h
    · exact .conv h
    · exact .sconv h
    · exact .up h
    · exact .prelu h

/-- What a keyword makes of its arguments is the operation that the grammar derives. -/
theorem build_eq_ok {keyword : String}
    {build : Nat → List LocatedArgument → Except TextFault Op} {pre : List Located} {start : Nat}
    {op : Op} (hbuild : Op.ofKeyword? keyword = some build) (h : Parenthesised pre arguments)
    (hsign : IsUnsigned pre) :
    build start arguments = .ok op ↔ Operation (.ident keyword :: kinds pre) op := by
  have hborder (b : Border) : Op.readBorder "evenize" .zeros arguments = .ok b ↔
      Bracketed .zeros Borders (kinds pre) b :=
    bracketed_iff h rfl nofun (fun hlist _ => readBorder_eq_ok hlist) hsign
  have hkernel (keyword : String) (k : Nat × Border) :
      Op.readKernel keyword arguments = .ok k ↔ Bracketed (3, .zeros) Kernel (kinds pre) k := by
    obtain ⟨n, b⟩ := k
    exact bracketed_iff h rfl not_kernel_nil
      (fun hlist hinner => readKernel_eq_ok hlist hinner) hsign
  have hup (a : Upsampling) : Op.readUpsampling start arguments = .ok a ↔
      Bracketed .bilinear Algorithm (kinds pre) a :=
    bracketed_iff h rfl nofun (fun hlist _ => readUpsampling_eq_ok hlist) hsign
  have hslope (slope : Float32) : Op.readSlope start arguments = .ok slope ↔
      Bracketed 0.25 Slope (kinds pre) slope :=
    bracketed_iff h rfl nofun (fun hlist _ => readSlope_eq_ok hlist) hsign
  unfold Op.ofKeyword? at hbuild
  split at hbuild <;> cases hbuild
  · simp [operation_iff, hborder]
  · simp [operation_iff, hkernel]
  · simp [operation_iff, hkernel]
  · simp [operation_iff, hup]
  · simp [operation_iff, hslope]

end BlockSpec

end Midframe
