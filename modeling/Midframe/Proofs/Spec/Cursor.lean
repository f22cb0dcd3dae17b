import Midframe.Proofs.Spec.Reading

/-!
# Reading with a cursor

The tokens of a text, its end included, stay in one list, and a cursor moves over them. The cursor
moves on with each token that is taken, except at the end, where it stays. Looking at a token
outside of the list has no result, and neither has a loop that goes on for more rounds than there
are tokens.

Reading with a cursor and reading what is left of a list come to the same result, flaws included.
In particular the cursor never leaves the list, and every loop comes to its end.
-/

namespace Midframe

/-- An action that moves a cursor and may find a flaw. It has no result if it looks outside of the
tokens or runs out of rounds. -/
abbrev Cursor (α : Type) : Type := StateT Nat (ExceptT TextFault Option) α

namespace Cursor

/-! ## The actions -/

section Actions

variable (tokens : List Located)

/-- The token at the cursor. -/
def look : Cursor Located := fun cursor =>
  match tokens[cursor]? with
  | some l => some (.ok (l, cursor))
  | none => none

/-- Takes a token. The cursor stays at the last one. -/
def bump : Cursor Located := do
  let l ← look tokens
  modify fun cursor => if cursor + 1 < tokens.length then cursor + 1 else cursor
  return l

/-- Takes a token of a kind, if it is there. -/
def consume (kind : Token) : Cursor Bool := do
  if (← look tokens).token = kind then
    let _ ← bump tokens
    return true
  else
    return false

/-- Takes a token that has to be of a kind. -/
def expect (kind : Token) : Cursor Unit := do
  let l ← look tokens
  if l.token = kind then
    let _ ← bump tokens
  else
    throw (l.start, .expected kind l.token)

/-- Takes a word and the byte at which it starts. -/
def expectWord : Cursor (Nat × String) := do
  let l ← look tokens
  match l.token with
  | .ident name =>
    let _ ← bump tokens
    return (l.start, name)
  | found => throw (l.start, .expectedIdentifier found)

/-- The argument that a token stands for. Only a number may follow a sign. -/
def valueOf? (negative : Bool) : Token → Option Argument
  | .number v => some (.number (if negative then -v else v))
  | .ident name => if negative then none else some (.word name)
  | _ => none

/-- Takes an argument. -/
def argument : Cursor LocatedArgument := do
  let first ← look tokens
  let negative ← consume tokens .minus
  let l ← look tokens
  match valueOf? negative l.token with
  | none => throw (l.start, .expectedArgument l.token)
  | some value =>
    let _ ← bump tokens
    return ⟨value, first.start⟩

/-- Takes arguments and the parenthesis behind them, in a number of rounds. -/
def arguments : Nat → Cursor (List LocatedArgument)
  | 0 => fun _ => none
  | rounds + 1 => do
    let a ← argument tokens
    if ← consume tokens .comma then
      return a :: (← arguments rounds)
    else
      expect tokens .rparen
      return [a]

/-- Takes what stands behind a keyword. -/
def parentheses : Cursor (List LocatedArgument) := do
  if ← consume tokens .lparen then
    if ← consume tokens .rparen then
      return []
    else
      arguments tokens tokens.length
  else
    return []

/-- Takes an operation. -/
def operation : Cursor (Nat × Op) := do
  let (start, keyword) ← expectWord tokens
  match Op.ofKeyword? keyword with
  | none => throw (start, .unknownKeyword keyword)
  | some build =>
    match build start (← parentheses tokens) with
    | .error fault => throw fault
    | .ok op => return (start, op)

/-- Takes a chain, in a number of rounds. -/
def chain : Nat → Bool → Cursor (List Op)
  | 0, _ => fun _ => none
  | rounds + 1, isFirst => do
    let (start, op) ← operation tokens
    if op.isEvenize && !isFirst then
      throw (start, .evenizeNotFirst)
    else if ← consume tokens .minus then
      return op :: (← chain rounds false)
    else
      return [op]

/-- Takes flags, in a number of rounds. -/
def raise : Nat → Flags → Cursor Flags
  | 0, _ => fun _ => none
  | rounds + 1, flags => do
    if ← consume tokens .plus then
      let (start, name) ← expectWord tokens
      match flags.raise? name with
      | none => throw (start, .unknownFlag name)
      | some flags => raise rounds flags
    else
      return flags

/-- Takes a specification. -/
def spec : Cursor BlockSpec := do
  let ops ← chain tokens tokens.length true
  let flags ← raise tokens tokens.length {}
  expect tokens .eof
  return ⟨ops, flags⟩

end Actions

/-! ## Where the cursor stands -/

variable {tokens : Tokens} {rest : List Located} {l : Located} {kind : Token} {α β : Type}

/-- The tokens of a text with its end. -/
def withEnd (tokens : Tokens) : List Located :=
  tokens.items ++ [⟨.eof, tokens.stop, tokens.stop⟩]

/-- The cursor in front of the tokens that are left. -/
def place (tokens : Tokens) (rest : List Located) : Nat := tokens.items.length - rest.length

/-- The next of the tokens that are left, or the end. -/
def next (stop : Nat) (rest : List Located) : Located := rest.headD ⟨.eof, stop, stop⟩

/-- The next token is of a kind only if the tokens that are left start with it. -/
theorem next_ne {stop : Nat}
    (h : ∀ start close behind, rest = ⟨kind, start, close⟩ :: behind → False)
    (hkind : kind ≠ .eof) : (next stop rest).token ≠ kind := by
  cases rest with
  | nil => exact hkind.symm
  | cons l rest =>
    rintro rfl
    exact h l.start l.stop rest rfl

theorem withEnd_place (h : rest <:+ tokens.items) :
    (withEnd tokens)[place tokens rest]? = some (next tokens.stop rest) := by
  obtain ⟨pre, hpre⟩ := h
  have hplace : place tokens rest = pre.length := by
    simp [place, ← hpre]
  rw [hplace, withEnd, ← hpre, List.append_assoc, List.getElem?_append_right (Nat.le_refl _),
    Nat.sub_self]
  cases rest <;> rfl

theorem place_cons (h : l :: rest <:+ tokens.items) :
    place tokens rest = place tokens (l :: rest) + 1 := by
  have := h.length_le
  simp only [List.length_cons] at this
  simp only [place, List.length_cons]
  omega

theorem suffix_of_cons (h : l :: rest <:+ tokens.items) : rest <:+ tokens.items :=
  (List.suffix_cons l rest).trans h

/-! ## Single tokens -/

theorem bind_of_ok {x : Cursor α} {f : α → Cursor β} {a : α} {c c' : Nat}
    (h : x c = some (.ok (a, c'))) : (x >>= f) c = f a c' := by
  show (x c >>= _ : Option _) = _
  rw [h]
  rfl

theorem bind_of_error {x : Cursor α} {f : α → Cursor β} {fault : TextFault} {c : Nat}
    (h : x c = some (.error fault)) : (x >>= f) c = some (.error fault) := by
  show (x c >>= _ : Option _) = _
  rw [h]
  rfl

theorem look_eq (h : rest <:+ tokens.items) :
    look (withEnd tokens) (place tokens rest)
      = some (.ok (next tokens.stop rest, place tokens rest)) := by
  simp only [look, withEnd_place h]

theorem bump_eq (h : l :: rest <:+ tokens.items) :
    bump (withEnd tokens) (place tokens (l :: rest)) = some (.ok (l, place tokens rest)) := by
  have hlt : place tokens (l :: rest) + 1 < (withEnd tokens).length := by
    have := h.length_le
    simp only [List.length_cons] at this
    simp only [place, withEnd, List.length_append, List.length_cons, List.length_nil]
    omega
  rw [bump, bind_of_ok (look_eq h), place_cons h]
  show some (Except.ok (l, if _ then _ else _)) = _
  rw [if_pos hlt]

theorem consume_of_eq (h : l :: rest <:+ tokens.items) (hl : l.token = kind) :
    consume (withEnd tokens) kind (place tokens (l :: rest))
      = some (.ok (true, place tokens rest)) := by
  have hnext : (next tokens.stop (l :: rest)).token = kind := hl
  rw [consume, bind_of_ok (look_eq h), if_pos hnext, bind_of_ok (bump_eq h)]
  rfl

theorem consume_of_ne (h : rest <:+ tokens.items) (hl : (next tokens.stop rest).token ≠ kind) :
    consume (withEnd tokens) kind (place tokens rest)
      = some (.ok (false, place tokens rest)) := by
  rw [consume, bind_of_ok (look_eq h), if_neg hl]
  rfl

theorem expect_of_eq (h : l :: rest <:+ tokens.items) (hl : l.token = kind) :
    expect (withEnd tokens) kind (place tokens (l :: rest))
      = some (.ok ((), place tokens rest)) := by
  have hnext : (next tokens.stop (l :: rest)).token = kind := hl
  rw [expect, bind_of_ok (look_eq h), if_pos hnext, bind_of_ok (bump_eq h)]
  rfl

theorem expect_of_ne (h : rest <:+ tokens.items) (hl : (next tokens.stop rest).token ≠ kind) :
    expect (withEnd tokens) kind (place tokens rest)
      = some (.error ((next tokens.stop rest).start,
          .expected kind (next tokens.stop rest).token)) := by
  rw [expect, bind_of_ok (look_eq h), if_neg hl]
  rfl

theorem expectWord_of_ident {name : String} {start close : Nat}
    (h : ⟨.ident name, start, close⟩ :: rest <:+ tokens.items) :
    expectWord (withEnd tokens) (place tokens (⟨.ident name, start, close⟩ :: rest))
      = some (.ok ((start, name), place tokens rest)) := by
  rw [expectWord, bind_of_ok (look_eq h)]
  show (bump (withEnd tokens) >>= _) _ = _
  rw [bind_of_ok (bump_eq h)]
  rfl

theorem expectWord_of_ne (h : rest <:+ tokens.items)
    (hl : ∀ name, (next tokens.stop rest).token ≠ .ident name) :
    expectWord (withEnd tokens) (place tokens rest)
      = some (.error ((next tokens.stop rest).start,
          .expectedIdentifier (next tokens.stop rest).token)) := by
  rw [expectWord, bind_of_ok (look_eq h)]
  cases ht : (next tokens.stop rest).token with
  | ident name => exact absurd ht (hl name)
  | _ => rfl

/-! ## Reading with and without a cursor -/

/-- The cursor ends in front of the tokens that are left, or both ways find the same flaw. -/
inductive Agrees (tokens : Tokens) :
    Option (Except TextFault (α × Nat)) → Except TextFault (α × List Located) → Prop
  /-- The same flaw. -/
  | fails (fault : TextFault) : Agrees tokens (some (.error fault)) (.error fault)
  /-- The same result, with the cursor in front of the tokens that are left. -/
  | reads (a : α) {rest : List Located} (h : rest <:+ tokens.items) :
      Agrees tokens (some (.ok (a, place tokens rest))) (.ok (a, rest))

theorem Agrees.of_error {x : Option (Except TextFault (α × Nat))} {fault : TextFault}
    (h : Agrees tokens x (.error fault)) : x = some (.error fault) := by
  cases h
  rfl

theorem Agrees.of_ok {x : Option (Except TextFault (α × Nat))} {a : α}
    (h : Agrees tokens x (.ok (a, rest))) :
    x = some (.ok (a, place tokens rest)) ∧ rest <:+ tokens.items := by
  cases h with
  | reads _ hrest => exact ⟨rfl, hrest⟩

theorem failAt_eq (stop : Nat) (items : List Located) (flaw : Token → TextFlaw) :
    BlockSpec.failAt (α := α) stop items flaw
      = .error ((next stop items).start, flaw (next stop items).token) := by
  cases items <;> rfl

open BlockSpec

theorem argument_agrees (h : rest <:+ tokens.items) :
    Agrees tokens (argument (withEnd tokens) (place tokens rest))
      (readArgument tokens.stop rest) := by
  rw [argument, bind_of_ok (look_eq h)]
  unfold readArgument
  split
  · have h' := suffix_of_cons h
    rw [bind_of_ok (consume_of_eq h rfl), bind_of_ok (look_eq h')]
    show Agrees tokens ((bump (withEnd tokens) >>= _) _) _
    rw [bind_of_ok (bump_eq h')]
    exact .reads _ (suffix_of_cons h')
  · next rest hnumber =>
    -- The sign is taken already when the token behind it turns out to be no number.
    have h' := suffix_of_cons h
    have hnone : valueOf? true (next tokens.stop rest).token = none := by
      rcases rest with _ | ⟨⟨token, start, close⟩, rest⟩
      · rfl
      · cases token with
        | number v => exact (hnumber v start close rest rfl).elim
        | _ => rfl
    rw [bind_of_ok (consume_of_eq h rfl), bind_of_ok (look_eq h'), failAt_eq]
    simp only [hnone]
    exact .fails _
  · rw [bind_of_ok (consume_of_ne h (by simp [next])), bind_of_ok (look_eq h)]
    show Agrees tokens ((bump (withEnd tokens) >>= _) _) _
    rw [bind_of_ok (bump_eq h)]
    exact .reads _ (suffix_of_cons h)
  · rw [bind_of_ok (consume_of_ne h (by simp [next])), bind_of_ok (look_eq h)]
    show Agrees tokens ((bump (withEnd tokens) >>= _) _) _
    rw [bind_of_ok (bump_eq h)]
    exact .reads _ (suffix_of_cons h)
  · next hminus hminus' hnumber hident =>
    have hne : (next tokens.stop rest).token ≠ .minus ∧
        valueOf? false (next tokens.stop rest).token = none := by
      rcases rest with _ | ⟨⟨token, start, close⟩, rest⟩
      · exact ⟨by simp [next], rfl⟩
      · cases token with
        | minus => exact (hminus' start close rest rfl).elim
        | number v => exact (hnumber v start close rest rfl).elim
        | ident name => exact (hident name start close rest rfl).elim
        | _ => exact ⟨by simp [next], rfl⟩
    rw [bind_of_ok (consume_of_ne h hne.1), bind_of_ok (look_eq h), failAt_eq]
    simp only [hne.2]
    exact .fails _

/-- Both ways go on from where they agree. -/
theorem Agrees.bind {x : Cursor α} {f : α → Cursor β} {c : Nat}
    {y : Except TextFault (α × List Located)} {z : Except TextFault (β × List Located)}
    (h : Agrees tokens (x c) y)
    (hok : ∀ a rest, y = .ok (a, rest) → rest <:+ tokens.items →
      Agrees tokens (f a (place tokens rest)) z)
    (herror : ∀ fault, y = .error fault → z = .error fault) :
    Agrees tokens ((x >>= f) c) z := by
  cases y with
  | error fault =>
    rw [bind_of_error h.of_error, herror fault rfl]
    exact .fails fault
  | ok p =>
    obtain ⟨hx, hrest⟩ := h.of_ok
    rw [bind_of_ok hx]
    exact hok _ _ rfl hrest

theorem arguments_agrees (rounds : Nat) (h : rest <:+ tokens.items) (hlt : rest.length < rounds) :
    Agrees tokens (arguments (withEnd tokens) rounds (place tokens rest))
      (readArguments tokens.stop rest) := by
  induction rounds generalizing rest with
  | zero => omega
  | succ rounds ih =>
    rw [readArguments_eq, arguments]
    refine (argument_agrees h).bind (fun a behind hread hbehind => ?_) fun fault hread => by
      simp only [hread]
    -- A round takes a token at least, so that those to come are enough for what is left.
    have hlength := readArgument_length hread
    simp only [hread]
    split
    · next heq => cases heq
    · next heq =>
      cases heq
      rw [List.length_cons] at hlength
      rw [bind_of_ok (consume_of_eq hbehind rfl), if_pos rfl]
      refine (ih (suffix_of_cons hbehind) (by omega)).bind (fun as rest hread hrest => ?_)
        fun fault hread => by simp only [hread]
      simp only [hread]
      exact .reads _ hrest
    · next heq =>
      cases heq
      rw [bind_of_ok (consume_of_ne hbehind (by simp [next]))]
      show Agrees tokens ((expect _ _ >>= _) _) _
      rw [bind_of_ok (expect_of_eq hbehind rfl)]
      exact .reads _ (suffix_of_cons hbehind)
    · next hcomma hclose heq =>
      cases heq
      rw [bind_of_ok (consume_of_ne hbehind (next_ne hcomma (by simp)))]
      show Agrees tokens ((expect _ _ >>= _) _) _
      rw [bind_of_error (expect_of_ne hbehind (next_ne hclose (by simp))), failAt_eq]
      exact .fails _

/-- There are enough rounds for the tokens that are left. -/
theorem length_lt_withEnd (h : rest <:+ tokens.items) : rest.length < (withEnd tokens).length := by
  have := h.length_le
  simp only [withEnd, List.length_append, List.length_cons, List.length_nil]
  omega

theorem parentheses_agrees (h : rest <:+ tokens.items) :
    Agrees tokens (parentheses (withEnd tokens) (place tokens rest))
      (readParentheses tokens.stop rest) := by
  rw [parentheses]
  unfold readParentheses
  split
  · have h' := suffix_of_cons h
    rw [bind_of_ok (consume_of_eq h rfl)]
    show Agrees tokens ((consume _ _ >>= _) _) _
    rw [bind_of_ok (consume_of_eq h' rfl)]
    exact .reads _ (suffix_of_cons h')
  · next rest hclose =>
    have h' := suffix_of_cons h
    rw [bind_of_ok (consume_of_eq h rfl)]
    show Agrees tokens ((consume _ _ >>= _) _) _
    rw [bind_of_ok (consume_of_ne h' (next_ne hclose (by simp)))]
    exact arguments_agrees _ h' (length_lt_withEnd h')
  · next hopen =>
    rw [bind_of_ok (consume_of_ne h (next_ne hopen (by simp)))]
    exact .reads _ h

theorem operation_agrees (h : rest <:+ tokens.items) :
    Agrees tokens (operation (withEnd tokens) (place tokens rest)) (readOp tokens.stop rest) := by
  rw [operation]
  unfold readOp
  split
  · next keyword start close rest =>
    have h' := suffix_of_cons h
    rw [bind_of_ok (expectWord_of_ident h)]
    dsimp only
    cases hbuild : Op.ofKeyword? keyword with
    | none => exact .fails _
    | some build =>
      refine (parentheses_agrees h').bind (fun as behind hread hbehind => ?_) fun fault hread => by
        simp only [hread]
      simp only [hread]
      cases build start as with
      | error fault => exact .fails fault
      | ok op => exact .reads _ hbehind
  · next hword =>
    rw [bind_of_error (expectWord_of_ne h fun name => next_ne (hword name) (by simp)), failAt_eq]
    exact .fails _

theorem chain_agrees (rounds : Nat) (isFirst : Bool) (h : rest <:+ tokens.items)
    (hlt : rest.length < rounds) :
    Agrees tokens (chain (withEnd tokens) rounds isFirst (place tokens rest))
      (readChain tokens.stop isFirst rest) := by
  induction rounds generalizing rest isFirst with
  | zero => omega
  | succ rounds ih =>
    rw [readChain_eq, chain]
    refine (operation_agrees h).bind (fun p behind hread hbehind => ?_) fun fault hread => by
      simp only [hread]
    -- An operation takes a token at least.
    have hlength := readOp_length hread
    simp only [hread]
    split
    · exact .fails _
    · split
      · rw [List.length_cons] at hlength
        rw [bind_of_ok (consume_of_eq hbehind rfl), if_pos rfl]
        refine (ih _ (suffix_of_cons hbehind) (by omega)).bind (fun ops rest hread hrest => ?_)
          fun fault hread => by simp only [hread]
        simp only [hread]
        exact .reads _ hrest
      · next hminus =>
        rw [bind_of_ok (consume_of_ne hbehind (next_ne hminus (by simp)))]
        exact .reads _ hbehind

theorem raise_agrees (rounds : Nat) (flags : Flags) (h : rest <:+ tokens.items)
    (hlt : rest.length < rounds) :
    Agrees tokens (raise (withEnd tokens) rounds flags (place tokens rest))
      (readFlags tokens.stop flags rest) := by
  induction rounds generalizing rest flags with
  | zero => omega
  | succ rounds ih =>
    rw [raise]
    unfold readFlags
    split
    · next name start' close' rest =>
      have h' := suffix_of_cons h
      simp only [List.length_cons] at hlt
      rw [bind_of_ok (consume_of_eq h rfl), if_pos rfl, bind_of_ok (expectWord_of_ident h')]
      dsimp only
      cases flags.raise? name with
      | none => exact .fails _
      | some flags => exact ih _ (suffix_of_cons h') (by omega)
    · next hword =>
      have h' := suffix_of_cons h
      rw [bind_of_ok (consume_of_eq h rfl), if_pos rfl,
        bind_of_error (expectWord_of_ne h' fun name => next_ne (hword name) (by simp)), failAt_eq]
      exact .fails _
    · next hplus =>
      rw [bind_of_ok (consume_of_ne h (next_ne hplus (by simp)))]
      exact .reads _ h

/-- At the end the cursor stays. -/
theorem expect_end (tokens : Tokens) :
    expect (withEnd tokens) .eof (place tokens []) = some (.ok ((), tokens.items.length)) := by
  have hlook := look_eq (List.nil_suffix : [] <:+ tokens.items)
  have hplace : place tokens [] = tokens.items.length := rfl
  have hlast : ¬ tokens.items.length + 1 < (withEnd tokens).length := by
    simp [withEnd]
  rw [expect, bind_of_ok hlook]
  show (bump (withEnd tokens) >>= fun _ => pure ()) _ = _
  have hbump : bump (withEnd tokens) (place tokens [])
      = some (.ok (next tokens.stop [], tokens.items.length)) := by
    rw [bump, bind_of_ok hlook, hplace]
    show some (Except.ok (_, if _ then _ else _)) = _
    rw [if_neg hlast]
  rw [bind_of_ok hbump]
  rfl

/-- Reading with a cursor has a result for every text, which is that of reading without one. The
cursor ends at the end of the text. -/
theorem run_spec {tokens : Tokens} (hend : ∀ l ∈ tokens.items, l.token ≠ .eof) :
    (spec (withEnd tokens)).run 0
      = some ((ofTokens tokens).map fun s => (s, tokens.items.length)) := by
  have hitems : tokens.items <:+ tokens.items := List.suffix_refl _
  have hstart : place tokens tokens.items = 0 := Nat.sub_self _
  show spec (withEnd tokens) 0 = _
  rw [← hstart, spec, ofTokens]
  have hchain := chain_agrees (withEnd tokens).length true hitems (length_lt_withEnd hitems)
  cases hops : readChain tokens.stop true tokens.items with
  | error fault =>
    rw [hops] at hchain
    rw [bind_of_error hchain.of_error]
    rfl
  | ok p =>
    obtain ⟨ops, rest⟩ := p
    rw [hops] at hchain
    obtain ⟨hchain, hrest⟩ := hchain.of_ok
    rw [bind_of_ok hchain]
    have hraise := raise_agrees (withEnd tokens).length {} hrest (length_lt_withEnd hrest)
    dsimp only
    cases hflags : readFlags tokens.stop {} rest with
    | error fault =>
      rw [hflags] at hraise
      rw [bind_of_error hraise.of_error]
      rfl
    | ok p =>
      obtain ⟨flags, behind⟩ := p
      rw [hflags] at hraise
      obtain ⟨hraise, hbehind⟩ := hraise.of_ok
      rw [bind_of_ok hraise]
      cases behind with
      | nil =>
        rw [bind_of_ok (expect_end tokens)]
        rfl
      | cons l behind =>
        -- The end stands only behind all tokens, so that it is not what is found here.
        rw [bind_of_error (expect_of_ne hbehind (hend l (hbehind.subset List.mem_cons_self)))]
        rfl

end Cursor

end Midframe
