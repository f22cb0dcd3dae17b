import Midframe.Proofs.Keyed
import Midframe.Proofs.Parameter.Names

/-!
# Exports

An export never fails, since the values of every array fill its extents. It puts the arrays into the
store one after the other, and no array replaces another one, since no two of them have the same
name. So the store is the report of the network in the order of the names.
-/

namespace Midframe

/-! ## Arrays fill their extents -/

theorem volume_extents (s : Shape) : volume s.extents = s.size := by
  simp [Shape.extents, Shape.size, volume, Nat.mul_assoc]

theorem ParameterArray.isFilled_iff {a : ParameterArray} :
    a.isFilled = true ↔ volume a.shape = a.data.size := beq_iff_eq

theorem Layer.arrays_isFilled (scope : String) (layer : Layer) :
    ∀ a ∈ layer.arrays scope, a.2.isFilled = true := by
  intro a ha
  rw [ParameterArray.isFilled_iff]
  cases layer with
  | conv c =>
    rcases List.mem_cons.mp ha with rfl | ha
    · exact (volume_extents _).trans (c.weight.data.size_toArray).symm
    · obtain ⟨bias, -, rfl⟩ := List.mem_map.mp ha
      exact (Nat.mul_one _).trans bias.size_toArray.symm
  | prelu initial slope =>
    obtain rfl := List.mem_singleton.mp ha
    rfl
  | _ => cases ha

theorem Network.arrays_isFilled (net : Network) : ∀ a ∈ net.arrays, a.2.isFilled = true := by
  intro a ha
  obtain ⟨p, -, ha⟩ := List.mem_flatMap.mp ha
  exact Layer.arrays_isFilled p.1 p.2 a ha

/-- The number of values in some arrays is that which their extents ask for. -/
theorem total_volume {arrays : List NamedArray} (h : ∀ a ∈ arrays, a.2.isFilled = true) :
    total (arrays.map fun a => volume a.2.shape) = total (arrays.map fun a => a.2.data.size) := by
  congr 1
  exact List.map_congr_left fun a ha => ParameterArray.isFilled_iff.mp (h a ha)

theorem total_perm {counts counts' : List Nat} (h : counts.Perm counts') :
    total counts = total counts' := by
  induction h with
  | nil => rfl
  | cons n _ ih => simp only [total, ih]
  | swap a b rest => simp only [total, Nat.add_left_comm]
  | trans _ _ ih ih' => exact ih.trans ih'

/-! ## The run of an export -/

namespace Network

theorem run_gather {arrays : List NamedArray} (h : ∀ a ∈ arrays, a.2.isFilled = true)
    (store : Store) :
    (arrays.mapM gather.onArray).run store
      = .ok (arrays, arrays.foldl (fun store a => store.insert a.1 a.2) store) := by
  induction arrays generalizing store with
  | nil => rfl
  | cons a rest ih =>
    have hfilled : ParameterArray.ofValues a.2.shape a.2.data = .ok a.2 :=
      if_pos (h a List.mem_cons_self)
    have hfirst : (gather.onArray a).run store = .ok (a, store.insert a.1 a.2) := by
      simp [Visit.onArray, gather, hfilled]
    exact run_mapM_cons hfirst (ih (fun b hb => h b (List.mem_cons_of_mem a hb)) _)

/-- An export is the map of all arrays; of several arrays of a name it would hold the last one. -/
theorem exportParameters_eq (net : Network) :
    net.exportParameters = .ok (Keyed.ofList net.arrays) := by
  have hrun := congrArg (fun run => (run.run Keyed.empty).map Prod.snd) (net.visit_gathers gather)
  simp only [StateT.run_map, run_gather net.arrays_isFilled, parts] at hrun
  unfold exportParameters
  cases hvisit : (net.visit gather).run Keyed.empty with
  | error e =>
    rw [hvisit] at hrun
    cases hrun
  | ok p =>
    rw [hvisit] at hrun
    exact hrun

/-- The store of an export has exactly the arrays of the network. -/
theorem IsScoped.exported {net : Network} (h : net.IsScoped) :
    ∃ store, net.exportParameters = .ok store ∧ store.entries.Perm net.arrays :=
  ⟨_, net.exportParameters_eq, Keyed.ofList_perm h.names_nodup⟩

theorem plan_parameterCount {net : Network} {height width : Nat} {plan : Plan}
    (h : net.plan height width = .ok plan) :
    plan.parameterCount = total (net.inventory.map fun line => volume line.2) := by
  simp only [Network.plan, bind_eq_ok] at h
  obtain ⟨-, -, encoder, -, decoder, -, coarse, -, kernels, -, h⟩ := h
  split at h
  · cases h
  · cases h
    rfl

/-- The names that a traversal of a network or of any pyramid reports are all different. So an
export succeeds, and its store holds the reported arrays, one for every line of the inventory, and
as many values as the inventory and every plan count. -/
theorem exports_report {config : Config} {net : Network} (hnet : net.IsOf config)
    {d : Direction} (p : Pyramid d) :
    (p.report.map Prod.fst).Nodup ∧ (net.report.map Prod.fst).Nodup ∧
      ∃ store, net.exportParameters = .ok store ∧
        store.entries.Perm net.report ∧
        (store.entries.map fun e => (e.1, e.2.shape)).Perm net.inventory ∧
        store.size = net.inventory.length ∧
        store.scalars = total (net.inventory.map fun line => volume line.2) ∧
        ∀ height width plan, net.plan height width = .ok plan →
          plan.parameterCount = store.scalars := by
  have hscoped := hnet.isScoped
  rw [p.report_eq, net.report_eq]
  refine ⟨p.names_nodup, hscoped.names_nodup, ?_⟩
  obtain ⟨store, hexport, hperm⟩ := hscoped.exported
  have hscalars : store.scalars = total (net.inventory.map fun line => volume line.2) := by
    calc store.scalars = total (net.arrays.map fun a => a.2.data.size) :=
          total_perm (hperm.map fun a => a.2.data.size)
      _ = total (net.arrays.map fun a => volume a.2.shape) :=
          (total_volume net.arrays_isFilled).symm
      _ = total (net.inventory.map fun line => volume line.2) := by
          rw [net.inventory_eq, List.map_map]
          rfl
  refine ⟨store, hexport, hperm, ?_, ?_, hscalars, fun height width plan hplan => ?_⟩
  · rw [net.inventory_eq]
    exact hperm.map fun a => (a.1, a.2.shape)
  · rw [net.inventory_length]
    exact hperm.length_eq
  · rw [plan_parameterCount hplan, hscalars]

/-- The export of a network of two levels, and a decoder whose scope looks like that of a layer. -/
theorem exports_report_nested : ∃ (net : Network) (p : Decoder),
    net.IsOf twoLevels ∧
    Pyramid.build .coarseToFine "main.0" [0, 2, 1] [0, 2, 1] "prelu(0.5)-conv(1)-conv(3)+skip"
      "conv(1)-sconv(3)" = .ok p ∧
    (p.report.map Prod.fst).Nodup ∧ (net.report.map Prod.fst).Nodup ∧
      ∃ store, net.exportParameters = .ok store ∧
        store.entries.Perm net.report ∧
        (store.entries.map fun e => (e.1, e.2.shape)).Perm net.inventory ∧
        store.size = net.inventory.length ∧
        store.scalars = total (net.inventory.map fun line => volume line.2) ∧
        ∀ height width plan, net.plan height width = .ok plan →
          plan.parameterCount = store.scalars := by
  obtain ⟨net, hnet⟩ := exists_twoLevels
  obtain ⟨p, hp⟩ := exists_eq_ok_of_isOk (show (Pyramid.build .coarseToFine "main.0" [0, 2, 1]
    [0, 2, 1] "prelu(0.5)-conv(1)-conv(3)+skip" "conv(1)-sconv(3)").isOk = true by decide +kernel)
  have hof : net.IsOf twoLevels := ⟨net, hnet, .refl⟩
  exact ⟨net, p, hof, hp, exports_report hof p⟩

end Network

end Midframe
