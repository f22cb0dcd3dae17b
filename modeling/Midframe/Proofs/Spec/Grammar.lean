import Midframe.Spec.Read
import Midframe.Proofs.Scalar.Value

/-!
# The grammar of block specifications

What the tokens of a text denote, stated apart from how they are read:

* a specification is a chain of operations joined by `-`, then flags that each follow a `+`, then
  the end;
* an operation is a keyword, alone, with empty parentheses or with arguments in parentheses;
* `evenize` takes borders and stands only at the head of a chain; `conv` and `sconv` take a size or
  a border and then borders; `up` takes one algorithm and `prelu` one number, which may have a sign;
* arguments are separated by commas; of several borders the last one holds.

A flag may be repeated, and the order of the flags does not matter.
-/

namespace Midframe

namespace Tokens

/-- The kinds of the tokens of a text, its end included. -/
def kinds (tokens : Tokens) : List Token := tokens.items.map Located.token ++ [.eof]

end Tokens

namespace Grammar

/-- Borders separated by commas, which denote the last one. -/
inductive Borders : List Token → Border → Prop
  /-- A single border. -/
  | last (b : Border) : Borders [.ident b.keyword] b
  /-- A border in front of others. -/
  | more (b : Border) {rest : List Token} {b' : Border} :
      Borders rest b' → Borders (.ident b.keyword :: .comma :: rest) b'

/-- The value of the number is the kernel size, from 1 to 255. -/
def IsKernelSize (value : Float) (size : Nat) : Prop :=
  exactValue value = some (size : ℚ) ∧ 1 ≤ size ∧ size ≤ 255

/-- The arguments of a convolution: its kernel size, its border, or both. -/
inductive Kernel : List Token → Nat × Border → Prop
  /-- A size alone leaves the border at zeros. -/
  | size {v : Float} {n : Nat} : IsKernelSize v n → Kernel [.number v] (n, .zeros)
  /-- A size in front of borders. -/
  | sizeBorders {v : Float} {n : Nat} {rest : List Token} {b : Border} :
      IsKernelSize v n → Borders rest b → Kernel (.number v :: .comma :: rest) (n, b)
  /-- Borders alone leave the size at 3. -/
  | borders {ts : List Token} {b : Border} : Borders ts b → Kernel ts (3, b)

/-- The argument of an upsampling. -/
inductive Algorithm : List Token → Upsampling → Prop
  /-- The word of the algorithm. -/
  | word (a : Upsampling) : Algorithm [.ident a.keyword] a

/-- The argument of a rectifier: a number with or without sign. -/
inductive Slope : List Token → Float32 → Prop
  /-- A number as it stands. -/
  | plain (v : Float) : Slope [.number v] (Widening.narrow v)
  /-- A number behind a sign. -/
  | negated (v : Float) : Slope [.minus, .number v] (Widening.narrow (-v))

/-- What may stand behind a keyword: nothing, empty parentheses, or parentheses around arguments. -/
inductive Bracketed {α : Type} (default : α) (Inner : List Token → α → Prop) :
    List Token → α → Prop
  /-- No parentheses. -/
  | absent : Bracketed default Inner [] default
  /-- Nothing between the parentheses. -/
  | empty : Bracketed default Inner [.lparen, .rparen] default
  /-- Arguments between the parentheses. -/
  | filled {ts : List Token} {a : α} :
      Inner ts a → Bracketed default Inner (.lparen :: (ts ++ [.rparen])) a

/-- An operation: a keyword and what stands behind it. -/
inductive Operation : List Token → Op → Prop
  /-- Odd extents are made even. -/
  | evenize {ts : List Token} {b : Border} :
      Bracketed .zeros Borders ts b → Operation (.ident "evenize" :: ts) (.evenize b)
  /-- A convolution. -/
  | conv {ts : List Token} {n : Nat} {b : Border} :
      Bracketed (3, .zeros) Kernel ts (n, b) → Operation (.ident "conv" :: ts) (.conv n b)
  /-- A strided convolution. -/
  | sconv {ts : List Token} {n : Nat} {b : Border} :
      Bracketed (3, .zeros) Kernel ts (n, b) → Operation (.ident "sconv" :: ts) (.sconv n b)
  /-- An upsampling. -/
  | up {ts : List Token} {a : Upsampling} :
      Bracketed .bilinear Algorithm ts a → Operation (.ident "up" :: ts) (.up a)
  /-- A rectifier. -/
  | prelu {ts : List Token} {slope : Float32} :
      Bracketed 0.25 Slope ts slope → Operation (.ident "prelu" :: ts) (.prelu slope)

/-- Operations joined by `-`, in the order of the text. -/
inductive Chain : List Token → List Op → Prop
  /-- A single operation. -/
  | last {ts : List Token} {op : Op} : Operation ts op → Chain ts [op]
  /-- An operation in front of others, none of which is `evenize`. -/
  | link {ts rest : List Token} {op : Op} {ops : List Op} :
      Operation ts op → Chain rest ops → (∀ b, .evenize b ∉ ops) →
      Chain (ts ++ .minus :: rest) (op :: ops)

/-- The words for flags. -/
def flagNames : List String := ["skip", "nobias", "nopad"]

/-- The flags that are named. -/
def raised (names : List String) : Flags where
  skip := names.contains "skip"
  noBias := names.contains "nobias"
  noPad := names.contains "nopad"

/-- Flags that each follow a `+`. -/
def flagTokens (names : List String) : List Token := names.flatMap fun name => [.plus, .ident name]

/-- What the tokens of a text denote. -/
inductive Denotes : List Token → BlockSpec → Prop
  /-- A chain, its flags and the end. -/
  | intro {ts : List Token} {ops : List Op} {names : List String} :
      Chain ts ops → (∀ name ∈ names, name ∈ flagNames) →
      Denotes (ts ++ flagTokens names ++ [.eof]) ⟨ops, raised names⟩

/-! ## What is denoted -/

theorem Kernel.bounds {ts : List Token} {n : Nat} {b : Border} (h : Kernel ts (n, b)) :
    1 ≤ n ∧ n ≤ 255 := by
  cases h with
  | size h => exact h.2
  | sizeBorders h _ => exact h.2
  | borders _ => decide

theorem Bracketed.kernel_bounds {ts : List Token} {n : Nat} {b : Border}
    (h : Bracketed (3, .zeros) Kernel ts (n, b)) : 1 ≤ n ∧ n ≤ 255 := by
  cases h with
  | absent => decide
  | empty => decide
  | filled h => exact h.bounds

/-- The kernel of an operation of the grammar has a size from 1 to 255. -/
theorem Operation.kernel_bounds {ts : List Token} {op : Op} (h : Operation ts op) {n : Nat}
    {b : Border} (hop : op = .conv n b ∨ op = .sconv n b) : 1 ≤ n ∧ n ≤ 255 := by
  cases h with
  | evenize _ | up _ | prelu _ => simp at hop
  | conv h =>
    simp only [Op.conv.injEq, reduceCtorEq, or_false] at hop
    obtain ⟨rfl, rfl⟩ := hop
    exact h.kernel_bounds
  | sconv h =>
    simp only [Op.sconv.injEq, reduceCtorEq, false_or] at hop
    obtain ⟨rfl, rfl⟩ := hop
    exact h.kernel_bounds

theorem Chain.ne_nil {ts : List Token} {ops : List Op} (h : Chain ts ops) : ops ≠ [] := by
  cases h <;> exact List.cons_ne_nil _ _

theorem Chain.evenize_first {ts : List Token} {ops : List Op} (h : Chain ts ops) {i : Nat}
    {b : Border} (hi : ops[i]? = some (.evenize b)) : i = 0 := by
  cases i with
  | zero => rfl
  | succ i =>
    cases h with
    | last _ => simp at hi
    | link _ _ hnone =>
      rw [List.getElem?_cons_succ] at hi
      exact absurd (List.mem_of_getElem? hi) (hnone b)

theorem Chain.kernel_bounds {ts : List Token} {ops : List Op} (h : Chain ts ops) {n : Nat}
    {b : Border} (hop : .conv n b ∈ ops ∨ .sconv n b ∈ ops) : 1 ≤ n ∧ n ≤ 255 := by
  induction h with
  | last h =>
    simp only [List.mem_singleton] at hop
    exact h.kernel_bounds (hop.imp Eq.symm Eq.symm)
  | link h _ _ ih =>
    simp only [List.mem_cons] at hop
    rcases hop with (hop | hop) | (hop | hop)
    · exact h.kernel_bounds (.inl hop.symm)
    · exact ih (.inl hop)
    · exact h.kernel_bounds (.inr hop.symm)
    · exact ih (.inr hop)

end Grammar

end Midframe
