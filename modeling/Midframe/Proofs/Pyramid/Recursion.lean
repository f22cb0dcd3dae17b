import Midframe.Proofs.Pyramid.Edges

/-!
# The equations of a pass

What a pass leaves at a level is given by recursion: the level's own value behind its horizontal
block and, where the level has a vertical block, the sum of that and of what the vertical block
makes of the value of the neighbour. Encoder and decoder differ in the neighbour and in what is done
to a contribution before it is added, which is nothing in an encoder and the fitting to the recorded
shape in a decoder.

A pass gives the values of this recursion if all of them exist, and otherwise the fault of the first
level that has one, in the order of its visits. So nothing but the levels visited up to then has a
say in the value of a level.
-/

namespace Midframe

namespace Direction

/-- One level is visited before another one. -/
def IsBefore : Direction → Nat → Nat → Prop
  | fineToCoarse, a, b => a < b
  | coarseToFine, a, b => b < a

/-- A level's distance from the end that the visits start from, out of so many levels. -/
def rank : Direction → Nat → Nat → Nat
  | fineToCoarse, level, _ => level
  | coarseToFine, level, levels => levels - level

variable {d : Direction}

theorem isBefore_neighbour {level levels neighbour : Nat}
    (h : d.neighbour? level levels = some neighbour) : d.IsBefore neighbour level := by
  rcases neighbour?_eq_some h with ⟨rfl, rfl⟩ | ⟨rfl, rfl, -⟩
  · exact Nat.lt_succ_self neighbour
  · exact Nat.lt_succ_self level

theorem neighbour?_lt {level levels neighbour : Nat} (hlevel : level < levels)
    (h : d.neighbour? level levels = some neighbour) : neighbour < levels := by
  rcases neighbour?_eq_some h with ⟨rfl, rfl⟩ | ⟨rfl, -, hlt⟩
  · omega
  · exact hlt

theorem IsBefore.trans {a b c : Nat} (hab : d.IsBefore a b) (hbc : d.IsBefore b c) :
    d.IsBefore a c := by
  cases d with
  | fineToCoarse => exact Nat.lt_trans hab hbc
  | coarseToFine => exact Nat.lt_trans hbc hab

theorem IsBefore.irrefl {a : Nat} : ¬ d.IsBefore a a := by
  cases d with
  | fineToCoarse => exact Nat.lt_irrefl a
  | coarseToFine => exact Nat.lt_irrefl a

theorem IsBefore.total {a b : Nat} (h : a ≠ b) : d.IsBefore a b ∨ d.IsBefore b a := by
  cases d with
  | fineToCoarse => exact Nat.lt_or_gt_of_ne h
  | coarseToFine => exact Nat.lt_or_gt_of_ne (Ne.symm h)

theorem rank_neighbour {level levels neighbour : Nat}
    (h : d.neighbour? level levels = some neighbour) :
    d.rank neighbour levels < d.rank level levels := by
  rcases neighbour?_eq_some h with ⟨rfl, rfl⟩ | ⟨rfl, rfl, hlt⟩
  · exact Nat.lt_succ_self neighbour
  · show levels - (level + 1) < levels - level
    omega

end Direction

/-! ## Outcomes -/

section Settles

variable {ε α : Type} {d : Direction} {f : Nat → Except ε α} {level count : Nat}

/-- What becomes of `count` levels from position `level` on that have the values `f`: all of them,
or the fault of the first level that has one. -/
def Settles (d : Direction) (f : Nat → Except ε α) (level count : Nat) :
    Except ε (List α) → Prop
  | .ok values => values.length = count ∧ ∀ i v, values[i]? = some v → f (level + i) = .ok v
  | .error e => ∃ k, level ≤ k ∧ k < level + count ∧ f k = .error e ∧
      ∀ j, level ≤ j → j < level + count → d.IsBefore j k → ∃ v, f j = .ok v

namespace Settles

theorem exists_ok {values : List α} (h : Settles d f level count (.ok values)) {k : Nat}
    (hlevel : level ≤ k) (hk : k < level + count) :
    ∃ v, values[k - level]? = some v ∧ f k = .ok v := by
  obtain ⟨hlength, hvalues⟩ := h
  have hlt : k - level < values.length := by omega
  have hsome := List.getElem?_eq_getElem hlt
  have hvalue := hvalues _ _ hsome
  rw [Nat.add_sub_cancel' hlevel] at hvalue
  exact ⟨_, hsome, hvalue⟩

/-- There is one outcome only. -/
theorem unique {r r' : Except ε (List α)} (h : Settles d f level count r)
    (h' : Settles d f level count r') : r = r' := by
  -- Values and a fault exclude each other.
  have hmixed {values : List α} {e : ε} (hok : Settles d f level count (.ok values))
      (herror : Settles d f level count (.error e)) : False := by
    obtain ⟨k, hlevel, hk, hfault, -⟩ := herror
    obtain ⟨v, -, hv⟩ := hok.exists_ok hlevel hk
    rw [hfault] at hv
    cases hv
  cases r with
  | ok values =>
    cases r' with
    | ok values' =>
      congr 1
      refine List.ext_getElem (h.1.trans h'.1.symm) fun i hi hi' => ?_
      have hv := h.2 i _ (List.getElem?_eq_getElem hi)
      have hv' := h'.2 i _ (List.getElem?_eq_getElem hi')
      rw [hv] at hv'
      exact Except.ok.inj hv'
    | error e => exact (hmixed h h').elim
  | error e =>
    cases r' with
    | ok values' => exact (hmixed h' h).elim
    | error e' =>
      obtain ⟨k, hlevel, hk, hfault, hfirst⟩ := h
      obtain ⟨k', hlevel', hk', hfault', hfirst'⟩ := h'
      by_cases hkk : k = k'
      · subst hkk
        rw [hfault] at hfault'
        cases hfault'
        rfl
      · rcases Direction.IsBefore.total (d := d) hkk with hbefore | hbefore
        · obtain ⟨v, hv⟩ := hfirst' k hlevel hk hbefore
          rw [hfault] at hv
          cases hv
        · obtain ⟨v, hv⟩ := hfirst k' hlevel' hk' hbefore
          rw [hfault'] at hv
          cases hv

/-- A level in front of others, with a value. -/
theorem cons_ok {values : List α} {v : α} (h : Settles d f (level + 1) count (.ok values))
    (hv : f level = .ok v) : Settles d f level (count + 1) (.ok (v :: values)) := by
  refine ⟨by rw [List.length_cons, h.1], fun i u hu => ?_⟩
  cases i with
  | zero =>
    cases hu
    exact hv
  | succ i =>
    rw [Nat.add_comm i, ← Nat.add_assoc]
    exact h.2 i u hu

/-- A first visited level with a fault. -/
theorem error_of_first {e : ε} (h : f level = .error e) :
    Settles .fineToCoarse f level (count + 1) (.error e) := by
  refine ⟨level, Nat.le_refl _, by omega, h, fun j hj _ hbefore => ?_⟩
  exact absurd hbefore (Nat.not_lt.mpr hj)

/-- A first visited level with a value, in front of others. -/
theorem cons_fineToCoarse {r : Except ε (List α)} {v : α} (hv : f level = .ok v)
    (h : Settles .fineToCoarse f (level + 1) count r) :
    Settles .fineToCoarse f level (count + 1) (r.map (v :: ·)) := by
  cases r with
  | ok values => exact h.cons_ok hv
  | error e =>
    obtain ⟨k, hlevel, hk, hfault, hfirst⟩ := h
    refine ⟨k, by omega, by omega, hfault, fun j hj hlt hbefore => ?_⟩
    by_cases hjl : j = level
    · subst hjl
      exact ⟨v, hv⟩
    · exact hfirst j (by omega) (by omega) hbefore

/-- A last visited level, in front of others with a fault. -/
theorem error_coarseToFine {e : ε} (h : Settles .coarseToFine f (level + 1) count (.error e)) :
    Settles .coarseToFine f level (count + 1) (.error e) := by
  obtain ⟨k, hlevel, hk, hfault, hfirst⟩ := h
  refine ⟨k, by omega, by omega, hfault, fun j _ hlt hbefore => ?_⟩
  have hkj : k < j := hbefore
  exact hfirst j (by omega) (by omega) hbefore

/-- A last visited level with a fault, in front of others with values. -/
theorem error_of_last {values : List α} {e : ε}
    (h : Settles .coarseToFine f (level + 1) count (.ok values)) (he : f level = .error e) :
    Settles .coarseToFine f level (count + 1) (.error e) := by
  refine ⟨level, Nat.le_refl _, by omega, he, fun j _ hlt hbefore => ?_⟩
  have hj : level < j := hbefore
  obtain ⟨v, -, hv⟩ := h.exists_ok (k := j) (by omega) (by omega)
  exact ⟨v, hv⟩

end Settles

/-- The result of a pass over levels that have the values `f`, said by what it can be. -/
structure IsSolution (d : Direction) (f : Nat → Except ε α) (levels : Nat)
    (r : Except ε (List α)) : Prop where
  /-- There are values exactly if each level has its value. -/
  ok_iff : ∀ values, r = .ok values ↔
    values.length = levels ∧ ∀ i v, values[i]? = some v → f i = .ok v
  /-- There is a fault exactly if a level has it and all levels visited before have values. -/
  error_iff : ∀ e, r = .error e ↔
    ∃ k < levels, f k = .error e ∧ ∀ j < levels, d.IsBefore j k → ∃ v, f j = .ok v

theorem Settles.isSolution {r : Except ε (List α)} (h : Settles d f 0 count r) :
    IsSolution d f count r where
  ok_iff := by
    intro values
    have hvalues : Settles d f 0 count (.ok values) ↔
        values.length = count ∧ ∀ i v, values[i]? = some v → f i = .ok v := by
      simp only [Settles, Nat.zero_add]
    rw [← hvalues]
    exact ⟨fun hr => hr ▸ h, h.unique⟩
  error_iff := by
    intro e
    have hfault : Settles d f 0 count (.error e) ↔
        ∃ k < count, f k = .error e ∧ ∀ j < count, d.IsBefore j k → ∃ v, f j = .ok v := by
      simp only [Settles, Nat.zero_add, Nat.zero_le, true_and, true_implies]
    rw [← hfault]
    exact ⟨fun hr => hr ▸ h, h.unique⟩

end Settles

namespace Pyramid

variable {τ : Type} [Flow τ] {d : Direction}

/-! ## The recursion -/

/-- The value of a level by recursion. `fit` is what is done to a contribution before it is
added. -/
def settled (p : Pyramid d) (fit : Nat → τ → Except Fault τ) (inputs : List (Option τ))
    (level : Nat) : Except Fault (Option τ) :=
  match p.levels[level]? with
  | none => .ok none
  | some l => do
    let own ← l.ownValue inputs[level]?.join
    match l.vertical, _hneighbour : d.neighbour? level p.levels.length with
    | some block, some neighbour => do
      match ← settled p fit inputs neighbour with
      | some v =>
        let c ← Flow.apply block v
        let c ← fit level c
        some <$> Level.combine own c
      | none => throw (.invalid (.emptyNeighbour p.scope level neighbour))
    | _, _ => return own
termination_by d.rank level p.levels.length
decreasing_by exact Direction.rank_neighbour _hneighbour

/-- An encoder adds contributions as they are. -/
def untouched (_ : Nat) (c : τ) : Except Fault τ := .ok c

/-- A decoder brings a contribution to the recorded size of its level. -/
def recalled (table : ShapeTable) (level : Nat) (c : τ) : Except Fault τ :=
  match table.get? level with
  | some expected => Level.reconcile level c expected
  | none => .error (.missingShapeRecord level)

/-- The value of a level of an encoder. -/
abbrev encoded (p : Encoder) (inputs : List (Option τ)) (level : Nat) : Except Fault (Option τ) :=
  p.settled untouched inputs level

/-- The value of a level of a decoder. -/
abbrev decoded (p : Decoder) (inputs : List (Option τ)) (table : ShapeTable) (level : Nat) :
    Except Fault (Option τ) :=
  p.settled (recalled table) inputs level

section Equations

variable {p : Pyramid d} {fit : Nat → τ → Except Fault τ} {inputs : List (Option τ)}

/-- The recursion is one step of a pass, taken from the value of the neighbour. -/
theorem settled_eq_joined (linked : p.IsLinked) {level neighbour : Nat} {l : Level}
    {source : Option τ} (hl : p.levels[level]? = some l)
    (hsource : ∀ m, d.neighbour? level p.levels.length = some m →
      m = neighbour ∧ p.settled fit inputs m = .ok source) :
    p.settled fit inputs level = l.joined p.scope level neighbour
      (fun own c => fit level c >>= fun c => some <$> Level.combine own c) inputs[level]?.join
      source := by
  rw [settled, hl]
  unfold Level.joined
  simp only
  congr 1
  funext own
  unfold Level.contribution
  cases hvertical : l.vertical with
  | none => rfl
  | some block =>
    obtain ⟨m, hm⟩ := linked level l hl (by rw [hvertical]; rfl)
    obtain ⟨rfl, hsettled⟩ := hsource m hm
    split
    · next block' m' hblock hm' =>
      cases hblock
      cases hm.symm.trans hm'
      rw [hsettled]
      cases source with
      | none => rfl
      | some v =>
        show (Flow.apply block v >>= _) = (Flow.apply block v).map some >>= _
        cases Flow.apply block v <;> rfl
    · next hnone => exact absurd hm (hnone block m rfl)

/-- The value of a level depends on the levels visited up to then only: on their inputs and, where
they have a vertical block, on what is done to contributions. -/
theorem settled_congr {fit' : Nat → τ → Except Fault τ} {inputs' : List (Option τ)} {level : Nat}
    (hinputs : ∀ j, j = level ∨ d.IsBefore j level → inputs[j]? = inputs'[j]?)
    (hfit : ∀ j l, j = level ∨ d.IsBefore j level → p.levels[j]? = some l →
      l.vertical.isSome = true → fit j = fit' j) :
    p.settled fit inputs level = p.settled fit' inputs' level := by
  induction hrank : d.rank level p.levels.length using Nat.strong_induction_on
    generalizing level with
  | _ rank ih =>
    rw [settled, settled, hinputs level (.inl rfl)]
    split
    · rfl
    · next l hl =>
      congr 1
      funext own
      split
      · next block neighbour hvertical hneighbour =>
        have hbefore := Direction.isBefore_neighbour hneighbour
        have hup : ∀ j, j = neighbour ∨ d.IsBefore j neighbour → d.IsBefore j level := by
          rintro j (rfl | hj)
          · exact hbefore
          · exact hj.trans hbefore
        have hsource : p.settled fit inputs neighbour = p.settled fit' inputs' neighbour :=
          ih _ (hrank ▸ Direction.rank_neighbour hneighbour)
            (fun j hj => hinputs j (.inr (hup j hj)))
            (fun j l hj => hfit j l (.inr (hup j hj))) rfl
        rw [hsource, hfit level l (.inl rfl) hl (by rw [hvertical]; rfl)]
      · rfl

end Equations

/-! ## The passes -/

section Passes

variable {inputs : List (Option τ)}

omit [Flow τ] in
/-- The end of a list of levels and inputs that starts with these two. -/
theorem of_drop_zip_eq_cons {levels : List Level} {level : Nat} {l : Level} {input : Option τ}
    {rest : List (Level × Option τ)} (h : (levels.zip inputs).drop level = (l, input) :: rest) :
    levels[level]? = some l ∧ inputs[level]? = some input ∧
      (levels.zip inputs).drop (level + 1) = rest := by
  obtain ⟨hfirst, hrest⟩ := of_drop_eq_cons h
  obtain ⟨hl, hinput⟩ := List.getElem?_zip_eq_some.mp hfirst
  exact ⟨hl, hinput, hrest⟩

theorem fitted_eq_recalled (table : ShapeTable) (level : Nat) (own : Option τ) (c : τ) :
    Level.fitted table level own c =
      recalled table level c >>= fun c => some <$> Level.combine own c := by
  unfold Level.fitted recalled
  cases table.get? level <;> rfl

/-- The value of a level of an encoder is one step of its pass, taken from the value below. -/
theorem encoded_eq_encode {p : Encoder} (linked : p.IsLinked) {level : Nat} {l : Level}
    {input below : Option τ} (hl : p.levels[level]? = some l) (hinput : inputs[level]? = some input)
    (hbelow : ∀ j, level = j + 1 → p.encoded inputs j = .ok below) :
    p.encoded inputs level = l.encode p.scope level input below := by
  have hsource (m : Nat) (hm : Direction.fineToCoarse.neighbour? level p.levels.length = some m) :
      m = level - 1 ∧ p.encoded inputs m = .ok below := by
    rcases Direction.neighbour?_eq_some hm with ⟨-, rfl⟩ | ⟨hd, -⟩
    · exact ⟨rfl, hbelow m rfl⟩
    · cases hd
  have hequation := settled_eq_joined linked hl hsource
  rw [hinput] at hequation
  exact hequation

/-- An encoder from position `level` on. -/
theorem encodeLevels_settles {p : Encoder} (linked : p.IsLinked) {level : Nat}
    {rest : List (Level × Option τ)} (hrest : (p.levels.zip inputs).drop level = rest)
    {below : Option τ} (hbelow : ∀ j, level = j + 1 → p.encoded inputs j = .ok below)
    (table : ShapeTable) :
    Settles .fineToCoarse (p.encoded inputs) level rest.length
      (encodeLevels p.scope level below table rest).1 := by
  induction rest generalizing level below table with
  | nil => exact ⟨rfl, by simp⟩
  | cons first rest ih =>
    obtain ⟨l, input⟩ := first
    obtain ⟨hl, hinput, hrest⟩ := of_drop_zip_eq_cons hrest
    have hstep := encoded_eq_encode linked hl hinput hbelow
    cases hvalue : l.encode p.scope level input below with
    | error e =>
      rw [encodeLevels, hvalue]
      exact Settles.error_of_first (hstep.trans hvalue)
    | ok value =>
      rw [encodeLevels_of_ok hvalue]
      refine Settles.cons_fineToCoarse (hstep.trans hvalue) (ih hrest (fun j hj => ?_) _)
      cases hj
      exact hstep.trans hvalue

/-- A decoder from position `level` on. -/
theorem decodeLevels_settles {p : Decoder} (linked : p.IsLinked)
    (hlength : inputs.length = p.levels.length) (table : ShapeTable) {level : Nat}
    {rest : List (Level × Option τ)} (hrest : (p.levels.zip inputs).drop level = rest) :
    Settles .coarseToFine (p.decoded inputs table) level rest.length
      (decodeLevels p.scope table level rest) := by
  induction rest generalizing level with
  | nil => exact ⟨rfl, by simp⟩
  | cons first rest ih =>
    obtain ⟨l, input⟩ := first
    obtain ⟨hl, hinput, hrest⟩ := of_drop_zip_eq_cons hrest
    have htail := ih hrest
    rw [decodeLevels]
    cases hrun : decodeLevels p.scope table (level + 1) rest with
    | error e =>
      rw [hrun] at htail
      exact htail.error_coarseToFine
    | ok values =>
      rw [hrun] at htail
      have hcount : rest.length = p.levels.length - (level + 1) := by
        rw [← hrest, List.length_drop, List.length_zip, hlength, Nat.min_self]
      have hsource (m : Nat)
          (hm : Direction.coarseToFine.neighbour? level p.levels.length = some m) :
          m = level + 1 ∧ p.decoded inputs table m = .ok values.head?.join := by
        rcases Direction.neighbour?_eq_some hm with ⟨hd, -⟩ | ⟨-, rfl, hlt⟩
        · cases hd
        · obtain ⟨v, hv, hsettled⟩ := htail.exists_ok (Nat.le_refl _) (by omega)
          rw [Nat.sub_self, ← List.head?_eq_getElem?] at hv
          rw [hv]
          exact ⟨rfl, hsettled⟩
      have hstep : p.decoded inputs table level
          = l.decode p.scope table level input values.head?.join := by
        have hequation := settled_eq_joined linked hl hsource
        rw [hinput] at hequation
        refine hequation.trans (congrArg (fun fit => l.joined _ _ _ fit _ _) ?_)
        funext own c
        exact (fitted_eq_recalled table level own c).symm
      cases hvalue : l.decode p.scope table level input values.head?.join with
      | error e =>
        show Settles _ _ _ _ (l.decode p.scope table level input values.head?.join >>= _)
        rw [hvalue]
        exact htail.error_of_last (hstep.trans hvalue)
      | ok value =>
        show Settles _ _ _ _ (l.decode p.scope table level input values.head?.join >>= _)
        rw [hvalue]
        exact htail.cons_ok (hstep.trans hvalue)

/-- The pass of an encoder gives the values of the recursion. -/
theorem encode_settles {p : Encoder} (linked : p.IsLinked)
    (hlength : inputs.length = p.levels.length) (table : ShapeTable) :
    Settles .fineToCoarse (p.encoded inputs) 0 p.levels.length (p.encode inputs table).1 := by
  have hstart : (p.levels.zip inputs).drop 0 = p.levels.zip inputs := List.drop_zero ..
  have hbelow (j : Nat) (hj : 0 = j + 1) : p.encoded inputs j = .ok none := by cases hj
  have h := encodeLevels_settles linked hstart hbelow table
  rw [List.length_zip, hlength, Nat.min_self] at h
  unfold encode
  rw [checkInputs_eq_ok.mpr hlength]
  exact h

/-- The pass of a decoder gives the values of the recursion. -/
theorem decode_settles {p : Decoder} (linked : p.IsLinked)
    (hlength : inputs.length = p.levels.length) (table : ShapeTable) :
    Settles .coarseToFine (p.decoded inputs table) 0 p.levels.length (p.decode inputs table) := by
  have hstart : (p.levels.zip inputs).drop 0 = p.levels.zip inputs := List.drop_zero ..
  have h := decodeLevels_settles linked hlength table hstart
  rw [List.length_zip, hlength, Nat.min_self] at h
  unfold decode
  rw [checkInputs_eq_ok.mpr hlength]
  exact h

end Passes

end Pyramid

end Midframe
