import Midframe.Proofs.Spec.Arguments

/-!
# Reading follows the grammar

For operations, chains and flags there are two directions: what is read was derived by the grammar
from the tokens that were consumed, and tokens that the grammar derives are read back, whatever
stands behind them that could not belong to them. Together they say that the tokens of a text are
read exactly if they denote a specification, which is the one that is given back.
-/

namespace Midframe

namespace BlockSpec

open Grammar

variable {stop : Nat} {items rest : List Located}

/-! ## Operations -/

theorem readOp_sound {start : Nat} {op : Op} (h : readOp stop items = .ok ((start, op), rest))
    (hsign : IsUnsigned items) : ∃ pre, items = pre ++ rest ∧ Operation (kinds pre) op := by
  unfold readOp at h
  split at h
  · next keyword start close items =>
    split at h
    · exact absurd h (by simp)
    · next build hbuild =>
      split at h
      · exact absurd h (by simp)
      · next arguments behind hread =>
        split at h
        · exact absurd h (by simp)
        · next op hop =>
          obtain ⟨⟨rfl, rfl⟩, rfl⟩ : (_ ∧ _) ∧ _ := by simpa using h
          obtain ⟨pre, rfl, hpre⟩ := readParentheses_sound hread
          refine ⟨⟨.ident keyword, start, close⟩ :: pre, rfl, ?_⟩
          exact (build_eq_ok hbuild hpre fun l hl => hsign l (by simp [hl])).mp hop
  · exact absurd h (by simp [failAt])

/-- Tokens that can be read as an operation: a keyword and arguments behind it. -/
inductive Keyworded : List Located → Prop
  /-- The keyword has a meaning and the arguments can be read. -/
  | intro {keyword : String} {start close : Nat} {behind : List Located}
      {arguments : List LocatedArgument}
      {build : Nat → List LocatedArgument → Except TextFault Op} :
      Op.ofKeyword? keyword = some build → Parenthesised behind arguments →
      Keyworded (⟨.ident keyword, start, close⟩ :: behind)

theorem keyworded_of_kinds {keyword : String} {ts : List Token}
    {build : Nat → List LocatedArgument → Except TextFault Op} {pre : List Located}
    (hbuild : Op.ofKeyword? keyword = some build) (hts : kinds pre = .ident keyword :: ts)
    (hread : ∀ {behind}, kinds behind = ts → ∃ arguments, Parenthesised behind arguments) :
    Keyworded pre := by
  obtain ⟨⟨_, start, close⟩, behind, rfl, rfl, hbehind⟩ := kinds_eq_cons.mp hts
  obtain ⟨arguments, hread⟩ := hread hbehind
  exact .intro hbuild hread

theorem keyworded_of_operation {pre : List Located} {op : Op} (h : Operation (kinds pre) op) :
    Keyworded pre := by
  generalize hts : kinds pre = ts at h
  cases h with
  | evenize h => exact keyworded_of_kinds rfl hts (exists_parenthesised h argumentList_of_borders)
  | conv h => exact keyworded_of_kinds rfl hts (exists_parenthesised h argumentList_of_kernel)
  | sconv h => exact keyworded_of_kinds rfl hts (exists_parenthesised h argumentList_of_kernel)
  | up h => exact keyworded_of_kinds rfl hts (exists_parenthesised h argumentList_of_algorithm)
  | prelu h => exact keyworded_of_kinds rfl hts (exists_parenthesised h argumentList_of_slope)

theorem readOp_complete (stop : Nat) {pre : List Located} {op : Op} (h : Operation (kinds pre) op)
    (hsign : IsUnsigned pre) (hrest : IsBare rest) :
    ∃ start, readOp stop (pre ++ rest) = .ok ((start, op), rest) := by
  cases keyworded_of_operation h with
  | @intro keyword start close behind arguments build hbuild hread =>
    have hop : build start arguments = .ok op :=
      (build_eq_ok hbuild hread fun l hl => hsign l (by simp [hl])).mpr h
    refine ⟨start, ?_⟩
    simp only [List.cons_append, readOp, hbuild, readParentheses_complete stop hread hrest, hop]

/-! ## Chains -/

/-- Reading a chain, unfolded once. -/
theorem readChain_eq (stop : Nat) (isFirst : Bool) (items : List Located) :
    readChain stop isFirst items = match readOp stop items with
      | .error e => .error e
      | .ok ((start, op), rest) =>
        if op.isEvenize && !isFirst then .error (start, .evenizeNotFirst)
        else match rest with
          | ⟨.minus, _, _⟩ :: rest => match readChain stop false rest with
            | .error e => .error e
            | .ok (ops, rest) => .ok (op :: ops, rest)
          | rest => .ok ([op], rest) := by
  rw [readChain]
  split
  · simp only [*]
  · next start op rest found =>
    simp only [found]
    split
    · rfl
    · rcases rest with _ | ⟨⟨token, begin, close⟩, rest⟩
      · rfl
      · cases token with
        | minus => cases readChain stop false rest <;> rfl
        | _ => rfl

theorem isEvenize_iff {op : Op} : op.isEvenize = true ↔ ∃ b, op = .evenize b := by
  cases op <;> simp [Op.isEvenize]

theorem IsUnsigned.of_append_left {pre : List Located} (h : IsUnsigned (pre ++ rest)) :
    IsUnsigned pre := fun l hl => h l (List.mem_append_left _ hl)

theorem IsUnsigned.of_append_right {pre : List Located} (h : IsUnsigned (pre ++ rest)) :
    IsUnsigned rest := fun l hl => h l (List.mem_append_right _ hl)

theorem IsUnsigned.tail {l : Located} (h : IsUnsigned (l :: rest)) : IsUnsigned rest :=
  fun l' hl => h l' (List.mem_cons_of_mem _ hl)

variable {ops : List Op}

theorem readChain_sound {isFirst : Bool} (h : readChain stop isFirst items = .ok (ops, rest))
    (hsign : IsUnsigned items) :
    ∃ pre, items = pre ++ rest ∧ Chain (kinds pre) ops ∧
      (isFirst = false → ∀ b, .evenize b ∉ ops) := by
  fun_induction readChain stop isFirst items generalizing ops rest with
  | case1 => exact absurd h (by simp)
  | case2 => exact absurd h (by simp)
  | case3 => exact absurd h (by simp)
  | case4 isFirst items start op hnot start' close rest' _ ops' rest'' hread hop ih =>
    obtain ⟨rfl, rfl⟩ : _ ∧ _ := by simpa using h
    obtain ⟨first, rfl, hfirst⟩ := readOp_sound hop hsign
    obtain ⟨chain, rfl, hchain, hnone⟩ := ih hread hsign.of_append_right.tail
    refine ⟨first ++ ⟨.minus, start', close⟩ :: chain, by simp, ?_, fun hf b hb => ?_⟩
    · -- Behind a `-` the reader is not at the head any more, where it refuses `evenize`.
      rw [kinds_append, kinds_cons]
      exact .link hfirst hchain (hnone rfl)
    · rcases List.mem_cons.mp hb with rfl | hb
      · exact hnot (by simp [Op.isEvenize, hf])
      · exact hnone rfl b hb
  | case5 isFirst items start op hnot rest' _ _ hop =>
    obtain ⟨rfl, rfl⟩ : _ ∧ _ := by simpa using h
    obtain ⟨first, rfl, hfirst⟩ := readOp_sound hop hsign
    refine ⟨first, rfl, .last hfirst, fun hf b hb => ?_⟩
    obtain rfl := List.mem_singleton.mp hb
    exact hnot (by simp [Op.isEvenize, hf])

/-- What may stand behind the head of a chain is not refused for its place. -/
theorem not_misplaced {isFirst : Bool} {op : Op}
    (h : isFirst = false → ∀ b, .evenize b ∉ op :: ops) : (op.isEvenize && !isFirst) = false := by
  cases isFirst with
  | true => simp
  | false =>
    rw [Bool.not_false, Bool.and_true, ← Bool.not_eq_true, isEvenize_iff]
    rintro ⟨b, rfl⟩
    exact h rfl b List.mem_cons_self

theorem readChain_complete {pre : List Located} (h : Chain (kinds pre) ops) (hsign : IsUnsigned pre)
    {isFirst : Bool} (hfirst : isFirst = false → ∀ b, .evenize b ∉ ops)
    (hrest : ∀ l ∈ rest.head?, l.token ≠ .lparen ∧ l.token ≠ .minus) :
    readChain stop isFirst (pre ++ rest) = .ok (ops, rest) := by
  -- The induction is on the chain; its tokens and whether they are at the head vary.
  generalize hts : kinds pre = ts at h
  induction h generalizing pre isFirst with
  | @last ts op h =>
    obtain rfl := hts
    obtain ⟨start, hop⟩ := readOp_complete stop h hsign fun l hl => (hrest l hl).1
    have hplace := not_misplaced hfirst
    rw [readChain_eq, hop]
    simp only [hplace, Bool.false_eq_true, ↓reduceIte]
    split
    · exact absurd rfl (hrest _ rfl).2
    · rfl
  | @link ts ts' op ops' h hchain hnone ih =>
    obtain ⟨first, behind, rfl, rfl, hbehind⟩ := kinds_eq_append.mp hts
    obtain ⟨⟨_, start', close⟩, chain, rfl, rfl, rfl⟩ := kinds_eq_cons.mp hbehind
    -- The first operation ends at the `-`, since its arguments cannot go on with one.
    have hbare : IsBare (⟨.minus, start', close⟩ :: (chain ++ rest)) := fun l hl => by
      cases hl
      simp
    obtain ⟨start, hop⟩ := readOp_complete stop h hsign.of_append_left hbare
    have hplace := not_misplaced hfirst
    have hread : readChain stop false (chain ++ rest) = .ok (ops', rest) :=
      ih hsign.of_append_right.tail (fun _ => hnone) rfl
    rw [List.append_assoc, List.cons_append, readChain_eq, hop]
    simp only [hplace, Bool.false_eq_true, ↓reduceIte, hread]

/-! ## Flags -/

/-- Flags that are raised in addition to others. -/
def raisedOver (flags : Flags) (names : List String) : Flags where
  skip := flags.skip || names.contains "skip"
  noBias := flags.noBias || names.contains "nobias"
  noPad := flags.noPad || names.contains "nopad"

theorem raisedOver_default (names : List String) : raisedOver {} names = raised names := by
  simp [raisedOver, raised]

theorem raisedOver_nil (flags : Flags) : raisedOver flags [] = flags := by
  simp [raisedOver]

theorem raisedOver_cons (flags : Flags) (name : String) (names : List String) :
    raisedOver (raisedOver flags [name]) names = raisedOver flags (name :: names) := by
  simp [raisedOver, Bool.or_assoc]

theorem raise?_eq_some {flags flags' : Flags} {name : String} :
    flags.raise? name = some flags' ↔ name ∈ flagNames ∧ raisedOver flags [name] = flags' := by
  unfold Flags.raise?
  split
  · simp [flagNames, raisedOver]
  · simp [flagNames, raisedOver]
  · simp [flagNames, raisedOver]
  · simp_all [flagNames]

theorem readFlags_sound {flags flags' : Flags}
    (h : readFlags stop flags items = .ok (flags', rest)) :
    ∃ names pre, items = pre ++ rest ∧ kinds pre = flagTokens names ∧
      (∀ name ∈ names, name ∈ flagNames) ∧ raisedOver flags names = flags' := by
  fun_induction readFlags stop flags items with
  | case1 => exact absurd h (by simp)
  | case2 flags start close name start' close' rest' flags' hraise ih =>
    obtain ⟨names, pre, rfl, hpre, hnames, rfl⟩ := ih h
    obtain ⟨hname, rfl⟩ := raise?_eq_some.mp hraise
    refine ⟨name :: names, ⟨.plus, start, close⟩ :: ⟨.ident name, start', close'⟩ :: pre, rfl, ?_,
      List.forall_mem_cons.mpr ⟨hname, hnames⟩, (raisedOver_cons _ _ _).symm⟩
    simp [hpre, flagTokens]
  | case3 => exact absurd h (by simp [failAt])
  | case4 flags items =>
    obtain ⟨rfl, rfl⟩ : _ ∧ _ := by simpa using h
    exact ⟨[], [], rfl, rfl, List.forall_mem_nil _, raisedOver_nil _⟩

theorem readFlags_complete {names : List String} (hnames : ∀ name ∈ names, name ∈ flagNames)
    (h : kinds items = flagTokens names) {flags : Flags} :
    readFlags stop flags items = .ok (raisedOver flags names, []) := by
  induction names generalizing items flags with
  | nil =>
    obtain rfl := kinds_eq_nil.mp h
    rw [raisedOver_nil]
    rfl
  | cons name names ih =>
    obtain ⟨hname, hnames⟩ := List.forall_mem_cons.mp hnames
    obtain ⟨⟨_, start, close⟩, behind, rfl, rfl, hbehind⟩ := kinds_eq_cons.mp h
    obtain ⟨⟨_, start', close'⟩, rest, rfl, rfl, hrest⟩ := kinds_eq_cons.mp hbehind
    have hraise : flags.raise? name = some (raisedOver flags [name]) :=
      raise?_eq_some.mpr ⟨hname, rfl⟩
    simp only [readFlags, hraise]
    rw [ih hnames hrest, raisedOver_cons]

/-! ## Whole texts -/

/-- Flags start with a `+`. -/
theorem head_of_flagTokens {names : List String} (h : kinds items = flagTokens names) :
    ∀ l ∈ items.head?, l.token ≠ .lparen ∧ l.token ≠ .minus := by
  intro l hl
  cases names with
  | nil =>
    obtain rfl := kinds_eq_nil.mp h
    cases hl
  | cons name names =>
    obtain ⟨first, behind, rfl, hplus, -⟩ := kinds_eq_cons.mp h
    obtain rfl := Option.some.inj hl
    simp [hplus]

/-- Reading tokens gives what they denote. -/
theorem ofTokens_eq_ok {tokens : Tokens} (hsign : IsUnsigned tokens.items) {spec : BlockSpec} :
    ofTokens tokens = .ok spec ↔ Denotes tokens.kinds spec := by
  constructor
  · intro h
    unfold ofTokens at h
    split at h
    · exact absurd h (by simp)
    · next ops rest hchain =>
      obtain ⟨chain, hitems, hchain, -⟩ := readChain_sound hchain hsign
      split at h
      · exact absurd h (by simp)
      · next flags hflags =>
        obtain rfl := Except.ok.inj h
        obtain ⟨names, pre, hrest, hpre, hnames, rfl⟩ := readFlags_sound hflags
        rw [List.append_nil] at hrest
        have hkinds : tokens.kinds = kinds chain ++ flagTokens names ++ [.eof] := by
          rw [Tokens.kinds, hitems, hrest, List.map_append, ← hpre]
          rfl
        rw [hkinds, raisedOver_default]
        exact .intro hchain hnames
      · exact absurd h (by simp [failAt])
  · intro h
    generalize hts : tokens.kinds = ts at h
    cases h with
    | @intro chain ops names hchain hnames =>
      obtain ⟨pre, rest, hitems, rfl, hrest⟩ := kinds_eq_append.mp (List.append_cancel_right hts)
      have hread : readChain tokens.stop true (pre ++ rest) = .ok (ops, rest) :=
        readChain_complete hchain (hitems ▸ hsign).of_append_left nofun (head_of_flagTokens hrest)
      simp only [ofTokens, hitems, hread, readFlags_complete hnames hrest, raisedOver_default]

end BlockSpec

end Midframe
