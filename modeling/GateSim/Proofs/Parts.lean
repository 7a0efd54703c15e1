import GateSim.Proofs.Embedding
import GateSim.Proofs.Phases

/-!
# Parts of circuits

Some of the devices of a circuit, among them all that drive one of them, are a circuit on their own
(`Registry.restrict`). In a pass the gates of such a part get the values that they get in a pass of
the part alone. The whole may make more passes, and settle a second time when the part would not,
but passes over gates that have settled leave them alone. So the part does the same in the whole as
on its own, as long as both settle, and a circuit settles if it consists of parts that do.
-/

namespace GateSim

namespace Registry

/-- The picked devices in their order, with an index of their own. -/
def restrict (r : Registry) (S : NameId → Bool) : Registry where
  pins := r.pins
  devices := r.devices.filter (S ·.id)
  places := (r.ids.filter S).zipIdx.reverse

/-- Whatever drives a picked device is picked. -/
def Closed (r : Registry) (S : NameId → Bool) : Prop :=
  ∀ d ∈ r.devices, S d.id = true → ∀ e ∈ d.inputs, ∀ s ∈ e.2, S s.device = true

variable {r r' : Registry} {S T : NameId → Bool} {f g : Valuation} {d : Device}

theorem mem_restrict : d ∈ (r.restrict S).devices ↔ d ∈ r.devices ∧ S d.id = true :=
  List.mem_filter

theorem ids_restrict (r : Registry) (S : NameId → Bool) : (r.restrict S).ids = r.ids.filter S := by
  rw [ids, ids, List.filter_map]
  rfl

theorem lookup_zipIdx_reverse {l : List NameId} (h : l.Nodup) (a : NameId) (i : Nat) :
    l.zipIdx.reverse.lookup a = some i ↔ l[i]? = some a := by
  rw [← List.mk_mem_zipIdx_iff_getElem?, List.lookup_eq_some_iff]
  constructor
  · rintro ⟨l₁, l₂, heq, -⟩
    rw [← List.mem_reverse, heq]
    simp
  · intro hmem
    obtain ⟨l₁, l₂, heq⟩ := List.append_of_mem (List.mem_reverse.2 hmem)
    refine ⟨l₁, l₂, heq, fun p hp => ?_⟩
    -- an earlier entry for the same id would be a second place of it
    have hkeys : (l.zipIdx.reverse.map (·.1)).Nodup := by
      rw [List.map_reverse, List.nodup_reverse, List.zipIdx_map_fst]
      exact h
    rw [heq, List.map_append, List.map_cons] at hkeys
    have hdisjoint := List.disjoint_of_nodup_append hkeys
    rw [bne_iff_ne]
    rintro rfl
    exact hdisjoint (List.mem_map_of_mem hp) (List.mem_cons_self ..)

theorem WellFormed.restrict (h : r.WellFormed) (hc : r.Closed S) : (r.restrict S).WellFormed := by
  refine ⟨h.pins, fun a i => ?_, fun d hd => h.devices d (mem_restrict.1 hd).1,
    fun d hd pin s hs => ?_⟩
  · rw [ids_restrict]
    exact lookup_zipIdx_reverse (h.nodup_ids.filter _) a i
  · obtain ⟨hd, hS⟩ := mem_restrict.1 hd
    obtain ⟨d', hd', hid, hpin⟩ := h.sources d hd pin s hs
    have hS' : S d'.id = true := by
      rw [hid]
      exact hc d hd hS _ (PinMap.mem_of_get? hs) s rfl
    exact ⟨d', mem_restrict.2 ⟨hd', hS'⟩, hid, hpin⟩

theorem Closed.of_wiring_eq (hc : r.Closed S) (hw : r'.wiring = r.wiring) : r'.Closed S := by
  intro d' hd' hS
  obtain ⟨d, hd, hid, -, hin, -⟩ := exists_of_wiring_eq hw hd'
  rw [← hin]
  exact hc d hd (hid ▸ hS)

/-- A part is embedded in the whole, with all names as they are. -/
theorem embeds_restrict (h : r.WellFormed) (hc : r.Closed S) :
    Embeds (fun a => a) (r.restrict S) r where
  source := h.restrict hc
  target := h
  pins := rfl
  mem := fun d hd => by
    rw [Device.rename_self]
    exact (mem_restrict.1 hd).1
  inj := fun _ _ _ _ hab => hab

theorem device?_restrict (h : r.WellFormed) (hc : r.Closed S) {a : NameId} (ha : S a = true) :
    (r.restrict S).device? a = r.device? a := by
  refine Option.ext fun d => ?_
  rw [h.device?_eq_some_iff, (h.restrict hc).device?_eq_some_iff, mem_restrict]
  constructor
  · rintro ⟨⟨hd, -⟩, hid⟩
    exact ⟨hd, hid⟩
  · rintro ⟨hd, hid⟩
    exact ⟨⟨hd, hid ▸ ha⟩, hid⟩

theorem floating_restrict (h : r.WellFormed) (hc : r.Closed S) (hf : r.floating = []) :
    (r.restrict S).floating = [] :=
  (embeds_restrict h hc).floating hf

/-! ### Changes of parts -/

theorem restrict_map {F : Device → Device} (hF : ∀ d ∈ r.devices, (F d).id = d.id) :
    restrict { r with devices := r.devices.map F } S =
      { r.restrict S with devices := (r.restrict S).devices.map F } := by
  have hfilter : (r.devices.map F).filter (S ·.id) = (r.devices.filter (S ·.id)).map F := by
    rw [List.filter_map]
    refine congrArg (List.map F) (List.filter_congr fun d hd => ?_)
    exact congrArg S (hF d hd)
  simp only [restrict, ids_map hF, hfilter]

theorem restrict_advance (h : r.WellFormed) : r.advance.restrict S = (r.restrict S).advance :=
  restrict_map fun d hd => (Device.wiring_eq_iff.1 (Device.wiring_advance (h.devices d hd))).1

theorem restrict_setGates (f : Valuation) : (r.setGates f).restrict S = (r.restrict S).setGates f :=
  restrict_map fun _ _ => Device.id_setGate

theorem restrict_clocked (h : r.WellFormed) (hc : r.Closed S) :
    r.clocked.restrict S = (r.restrict S).clocked := by
  have hclock : ∀ d ∈ (r.restrict S).devices, r.clockDevice d = (r.restrict S).clockDevice d := by
    intro d hd
    have := (embeds_restrict h hc).clockDevice hd
    rwa [Device.rename_self, Device.rename_self, eq_comm] at this
  have hmap : r.clocked.restrict S =
      { r.restrict S with devices := (r.restrict S).devices.map r.clockDevice } :=
    restrict_map fun d _ => (clockDevice_eq r d).1
  rw [hmap, List.map_congr_left hclock]
  rfl

theorem restrict_update (h : r.WellFormed) (hc : r.Closed S) (a : NameId) {F : Device → Device}
    (hF : ∀ d, (F d).id = d.id) : (r.update a F).restrict S = (r.restrict S).update a F := by
  rw [h.update_eq, (h.restrict hc).update_eq]
  refine restrict_map fun d _ => ?_
  split
  · exact hF d
  · rfl

theorem update_of_notMem (h : r.WellFormed) {a : NameId} (ha : a ∉ r.ids) (F : Device → Device) :
    r.update a F = r := by
  have hmap : (r.devices.map fun d => if d.id = a then F d else d) = r.devices := by
    refine (List.map_congr_left fun d hd => if_neg ?_).trans (List.map_id _)
    rintro rfl
    exact ha (List.mem_map_of_mem hd)
  rw [h.update_eq, hmap]

/-- A switch of the part is set in the part as in the whole, and any other one is none there. -/
theorem restrict_setSwitch (h : r.WellFormed) (hc : r.Closed S) (a : NameId) (v : Signal) :
    ((r.restrict S).setSwitch a v).getD (r.restrict S) =
      ((r.setSwitch a v).getD r).restrict S := by
  by_cases ha : S a = true
  · unfold setSwitch
    rw [device?_restrict h hc ha]
    split
    · rw [Option.getD_some, Option.getD_some, restrict_update h hc a]
      exact fun _ => rfl
    · rfl
  · have hids : a ∉ (r.restrict S).ids := by
      rw [ids_restrict, List.mem_filter]
      exact fun hmem => ha hmem.2
    have hnone : (r.restrict S).device? a = none := by
      refine Option.eq_none_iff_forall_ne_some.2 fun d hd => hids ?_
      obtain ⟨hmem, hid⟩ := (h.restrict hc).device?_eq_some_iff.1 hd
      exact List.mem_map.2 ⟨d, hmem, hid⟩
    unfold setSwitch
    rw [hnone]
    split
    · next hs => cases hs
    split
    · rw [Option.getD_none, Option.getD_some, restrict_update h hc a,
        update_of_notMem (h.restrict hc) hids]
      exact fun _ => rfl
    · rfl

/-! ### Passes -/

/-- A device takes its turn, wherever it stands. -/
def move (r : Registry) (f : Valuation) (d : Device) : Valuation :=
  if d.kind.isGate then Function.update f d.id (r.next f d) else f

theorem passed_eq_foldl (r : Registry) (f : Valuation) : r.passed f = r.devices.foldl r.move f := by
  have hturns : ∀ n, r.turns n f = (r.devices.take n).foldl r.move f := by
    intro n
    induction n with
    | zero => rfl
    | succ n ih =>
      rw [turns, ih, List.take_add_one, List.foldl_append, turn]
      cases r.devices[n]? <;> rfl
  rw [passed, hturns, size, List.take_length]

def AgreeOn (S : NameId → Bool) (f g : Valuation) : Prop := ∀ a, S a = true → f a = g a

theorem next_restrict (h : r.WellFormed) (hc : r.Closed S) (hfg : AgreeOn S f g)
    (hd : d ∈ (r.restrict S).devices) : r.next f d = (r.restrict S).next g d := by
  have hnext := (embeds_restrict h hc).next f hd
  rw [Device.rename_self] at hnext
  rw [hnext]
  exact next_congr (h.restrict hc) fun d' hd' _ => hfg d'.id (mem_restrict.1 hd').2

/-- Turns of devices outside the part do not matter to it. -/
theorem agreeOn_foldl (h : r.WellFormed) (hc : r.Closed S) {l : List Device}
    (hl : ∀ d ∈ l, d ∈ r.devices) (hfg : AgreeOn S f g) :
    AgreeOn S (l.foldl r.move f) ((l.filter (S ·.id)).foldl (r.restrict S).move g) := by
  induction l generalizing f g with
  | nil => exact hfg
  | cons d l ih =>
    obtain ⟨hd, hl⟩ := List.forall_mem_cons.1 hl
    by_cases hS : S d.id = true
    · rw [List.filter_cons, if_pos hS]
      refine ih hl fun a ha => ?_
      unfold move
      split
      · rw [next_restrict h hc hfg (mem_restrict.2 ⟨hd, hS⟩), Function.update_apply,
          Function.update_apply, hfg a ha]
      · exact hfg a ha
    · rw [List.filter_cons, if_neg hS]
      refine ih hl fun a ha => ?_
      unfold move
      split
      · have hne : a ≠ d.id := by
          rintro rfl
          exact hS ha
        rw [Function.update_of_ne hne, hfg a ha]
      · exact hfg a ha

theorem agreeOn_iterate (h : r.WellFormed) (hc : r.Closed S) (hfg : AgreeOn S f g) (k : Nat) :
    AgreeOn S (r.passed^[k] f) ((r.restrict S).passed^[k] g) := by
  induction k with
  | zero => exact hfg
  | succ k ih =>
    rw [Function.iterate_succ_apply', Function.iterate_succ_apply', passed_eq_foldl,
      passed_eq_foldl]
    exact agreeOn_foldl h hc (fun _ hd => hd) ih

theorem agreeOn_gateValues (h : r.WellFormed) (hc : r.Closed S) :
    AgreeOn S r.gateValues (r.restrict S).gateValues := by
  intro a ha
  rw [gateValues, gateValues, output?, output?, device?_restrict h hc ha]

theorem Stable.restrict (h : r.WellFormed) (hc : r.Closed S) (hs : r.Stable f)
    (hfg : AgreeOn S f g) : (r.restrict S).Stable g := by
  intro d hd hg
  rw [← next_restrict h hc hfg hd, ← hfg d.id (mem_restrict.1 hd).2]
  exact hs d (mem_restrict.1 hd).1 hg

/-- Values are stable if they are in parts that make up the whole. -/
theorem stable_of_parts (h : r.WellFormed) (hS : r.Closed S) (hT : r.Closed T)
    (hcover : ∀ a ∈ r.ids, S a = true ∨ T a = true) {fS fT : Valuation} (hfS : AgreeOn S f fS)
    (hfT : AgreeOn T f fT) (hstS : (r.restrict S).Stable fS) (hstT : (r.restrict T).Stable fT) :
    r.Stable f := by
  intro d hd hg
  rcases hcover d.id (List.mem_map_of_mem hd) with ha | ha
  · have hmem := mem_restrict.2 ⟨hd, ha⟩
    rw [next_restrict h hS hfS hmem, hfS d.id ha]
    exact hstS d hmem hg
  · have hmem := mem_restrict.2 ⟨hd, ha⟩
    rw [next_restrict h hT hfT hmem, hfT d.id ha]
    exact hstT d hmem hg

/-- Passes do nothing once the values are stable. -/
theorem Stable.iterate_eq {j k : Nat} (hs : r.Stable (r.passed^[j] f)) (hjk : j ≤ k) :
    r.passed^[k] f = r.passed^[j] f := by
  obtain ⟨n, rfl⟩ := Nat.exists_eq_add_of_le hjk
  rw [Nat.add_comm, Function.iterate_add_apply, Function.iterate_fixed hs.passed_eq]

/-! ### Settling -/

/-- Settling ends at a stable iterate, and is long enough for each that is early enough. -/
theorem settle_ok_iff (h : r.WellFormed) (hf : r.floating = []) :
    (∃ passes, settle r = .ok passes r') ↔ ∃ k < r.settleLimit,
      r.Stable (r.passed^[k] r.gateValues) ∧ r' = r.setGates (r.passed^[k] r.gateValues) := by
  rcases settle_eq h hf with ⟨k, hk, hs, -, heq⟩ | ⟨hnone, heq⟩
  · rw [heq]
    constructor
    · rintro ⟨passes, hok⟩
      cases hok
      exact ⟨k, hk, hs, rfl⟩
    · rintro ⟨j, -, hj, rfl⟩
      refine ⟨k + 1, ?_⟩
      rcases Nat.le_total j k with hjk | hjk
      · rw [hj.iterate_eq hjk]
      · rw [hs.iterate_eq hjk]
  · rw [heq]
    constructor
    · rintro ⟨passes, hok⟩
      cases hok
    · rintro ⟨j, hj, hs, -⟩
      exact absurd hs (hnone j hj)

theorem settle_restrict {p q : Nat} {r₁ r₂ : Registry} (h : r.WellFormed) (hf : r.floating = [])
    (hc : r.Closed S) (hs : settle r = .ok p r₁) (hs' : settle (r.restrict S) = .ok q r₂) :
    r₂ = r₁.restrict S := by
  have hS := h.restrict hc
  obtain ⟨k, -, hk, rfl⟩ := (settle_ok_iff h hf).1 ⟨p, hs⟩
  obtain ⟨j, -, hj, rfl⟩ := (settle_ok_iff hS (floating_restrict h hc hf)).1 ⟨q, hs'⟩
  have hagree := agreeOn_iterate h hc (agreeOn_gateValues h hc) k
  have hkS := hk.restrict h hc hagree
  -- two stable iterates of the part are the same one
  have heq : (r.restrict S).passed^[j] (r.restrict S).gateValues =
      (r.restrict S).passed^[k] (r.restrict S).gateValues := by
    rcases Nat.le_total j k with hjk | hjk
    · exact (hj.iterate_eq hjk).symm
    · exact hkS.iterate_eq hjk
  rw [restrict_setGates, heq]
  exact setGates_congr fun d hd _ => (hagree d.id (mem_restrict.1 hd).2).symm

theorem settleLimit_restrict_le (r : Registry) (S : NameId → Bool) :
    (r.restrict S).settleLimit ≤ r.settleLimit := by
  have hle : (r.restrict S).size ≤ r.size := List.length_filter_le ..
  rw [settleLimit, settleLimit]
  omega

/-- The whole settles if parts do that make it up. It need not take more passes than the slower. -/
theorem exists_settle_of_parts {p q : Nat} {r₁ r₂ : Registry} (h : r.WellFormed)
    (hf : r.floating = []) (hS : r.Closed S) (hT : r.Closed T)
    (hcover : ∀ a ∈ r.ids, S a = true ∨ T a = true) (hs : settle (r.restrict S) = .ok p r₁)
    (hs' : settle (r.restrict T) = .ok q r₂) : ∃ passes r', settle r = .ok passes r' := by
  obtain ⟨j, hjlt, hj, -⟩ := (settle_ok_iff (h.restrict hS) (floating_restrict h hS hf)).1 ⟨p, hs⟩
  obtain ⟨k, hklt, hk, -⟩ := (settle_ok_iff (h.restrict hT) (floating_restrict h hT hf)).1 ⟨q, hs'⟩
  have hlast : ∀ n, j ≤ n → k ≤ n → r.Stable (r.passed^[n] r.gateValues) := by
    intro n hjn hkn
    refine stable_of_parts h hS hT hcover (agreeOn_iterate h hS (agreeOn_gateValues h hS) n)
      (agreeOn_iterate h hT (agreeOn_gateValues h hT) n) ?_ ?_
    · rwa [hj.iterate_eq hjn]
    · rwa [hk.iterate_eq hkn]
  have hleS := settleLimit_restrict_le r S
  have hleT := settleLimit_restrict_le r T
  have hmax : max j k < r.settleLimit := by omega
  obtain ⟨passes, hok⟩ := (settle_ok_iff h hf).2
    ⟨max j k, hmax, hlast _ (Nat.le_max_left ..) (Nat.le_max_right ..), rfl⟩
  exact ⟨passes, _, hok⟩

/-! ### Cycles -/

/-- A cycle of the part does what a cycle of the whole does to it, if both succeed. -/
theorem cycle_restrict {p q : Nat} {r₁ r₂ : Registry} (h : r.WellFormed) (hl : r.Latched)
    (hc : r.Closed S) (hr : cycle r = .ok p r₁) (hr' : cycle (r.restrict S) = .ok q r₂) :
    r₂ = r₁.restrict S := by
  have hf := floating_of_cycle hr
  have hlS : (r.restrict S).Latched := fun d hd => hl d (mem_restrict.1 hd).1
  obtain ⟨_, ra, hfirst, _, hsecond⟩ := (cycle_ok_iff h hf hl).1 ⟨p, hr⟩
  obtain ⟨_, rb, hfirst', _, hsecond'⟩ :=
    (cycle_ok_iff (h.restrict hc) (floating_restrict h hc hf) hlS).1 ⟨q, hr'⟩
  have hwa := wiring_advance h
  have ha := h.of_wiring_eq hwa
  have hfa := floating_advance h hf
  rw [← restrict_advance h] at hfirst'
  obtain rfl := settle_restrict ha hfa (hc.of_wiring_eq hwa) hfirst hfirst'
  -- both have settled, and are clocked now
  have hw₁ := (wiring_settle ha hfa hfirst).trans hwa
  obtain ⟨h₁, hf₁, -, -⟩ := settled_of_settle ha hfa (latched_advance hl) hfirst
  have hw₂ := wiring_clocked h₁
  rw [← restrict_clocked h₁ (hc.of_wiring_eq hw₁)] at hsecond'
  exact settle_restrict (h₁.of_wiring_eq hw₂) (floating_clocked h₁ hf₁)
    (hc.of_wiring_eq (hw₂.trans hw₁)) hsecond hsecond'

theorem floating_of_parts (hcover : ∀ a ∈ r.ids, S a = true ∨ T a = true)
    (hS : (r.restrict S).floating = []) (hT : (r.restrict T).floating = []) : r.floating = [] := by
  rw [floating_eq_nil_iff] at hS hT ⊢
  intro d hd
  rcases hcover d.id (List.mem_map_of_mem hd) with ha | ha
  · exact hS d (mem_restrict.2 ⟨hd, ha⟩)
  · exact hT d (mem_restrict.2 ⟨hd, ha⟩)

/-- A cycle succeeds if it does in parts that make up the whole. -/
theorem cycle_of_parts {p q : Nat} {r₁ r₂ : Registry} (h : r.WellFormed) (hl : r.Latched)
    (hS : r.Closed S) (hT : r.Closed T) (hcover : ∀ a ∈ r.ids, S a = true ∨ T a = true)
    (hrS : cycle (r.restrict S) = .ok p r₁) (hrT : cycle (r.restrict T) = .ok q r₂) :
    ∃ passes r', cycle r = .ok passes r' := by
  have hfS := floating_of_cycle hrS
  have hfT := floating_of_cycle hrT
  have hf := floating_of_parts hcover hfS hfT
  have hlatched : ∀ U, (r.restrict U).Latched := fun U d hd => hl d (mem_restrict.1 hd).1
  obtain ⟨_, raS, hfirstS, _, hsecondS⟩ :=
    (cycle_ok_iff (h.restrict hS) hfS (hlatched S)).1 ⟨p, hrS⟩
  obtain ⟨_, raT, hfirstT, _, hsecondT⟩ :=
    (cycle_ok_iff (h.restrict hT) hfT (hlatched T)).1 ⟨q, hrT⟩
  have hwa := wiring_advance h
  have ha := h.of_wiring_eq hwa
  have hfa := floating_advance h hf
  rw [← restrict_advance h] at hfirstS hfirstT
  obtain ⟨_, ra, hfirst⟩ := exists_settle_of_parts ha hfa (hS.of_wiring_eq hwa)
    (hT.of_wiring_eq hwa) (ids_eq_of_wiring_eq hwa ▸ hcover) hfirstS hfirstT
  obtain rfl := settle_restrict ha hfa (hS.of_wiring_eq hwa) hfirst hfirstS
  obtain rfl := settle_restrict ha hfa (hT.of_wiring_eq hwa) hfirst hfirstT
  -- the whole has settled as the parts have, and is clocked now
  have hw₁ := (wiring_settle ha hfa hfirst).trans hwa
  obtain ⟨h₁, hf₁, -, -⟩ := settled_of_settle ha hfa (latched_advance hl) hfirst
  have hw₂ := (wiring_clocked h₁).trans hw₁
  rw [← restrict_clocked h₁ (hS.of_wiring_eq hw₁)] at hsecondS
  rw [← restrict_clocked h₁ (hT.of_wiring_eq hw₁)] at hsecondT
  obtain ⟨_, r', hsecond⟩ := exists_settle_of_parts (h.of_wiring_eq hw₂)
    (floating_clocked h₁ hf₁) (hS.of_wiring_eq hw₂) (hT.of_wiring_eq hw₂)
    (ids_eq_of_wiring_eq hw₂ ▸ hcover) hsecondS hsecondT
  obtain ⟨passes, hcycle⟩ := (cycle_ok_iff h hf hl).2 ⟨_, ra, hfirst, _, hsecond⟩
  exact ⟨passes, r', hcycle⟩

end Registry

namespace Operation

/-- A switch is set or a cycle is simulated. -/
def isDriving : Operation → Bool
  | setSwitch .. | cycle => true
  | _ => false

end Operation

/-- The circuit that has only the picked devices, and their monitors. -/
def Circuit.restrict (c : Circuit) (S : NameId → Bool) : Circuit :=
  { c with devices := c.devices.restrict S, monitors := c.monitors.filter (S ·.device) }

namespace Session
variable {s t : Session} {S T : NameId → Bool}

def restrict (s : Session) (S : NameId → Bool) : Session :=
  { s with circuit := s.circuit.restrict S }

theorem devices_setSwitch (s : Session) (id : NameId) (v : Signal) :
    (s.perform (.setSwitch id v)).2.circuit.devices =
      (s.circuit.devices.setSwitch id v).getD s.circuit.devices := by
  show (s.circuit.setSwitch id v).2.devices = _
  unfold Circuit.setSwitch
  cases s.circuit.devices.setSwitch id v <;> rfl

/-- A cycle does not fail exactly if that of the devices succeeds. -/
theorem cycle_of_not_failed (h : (s.perform .cycle).1.isFailedCycle = false) :
    ∃ passes, Registry.cycle s.circuit.devices =
      .ok passes (s.perform .cycle).2.circuit.devices := by
  rcases hc : s.circuit.cycle with ⟨f | passes, c⟩
  · rw [perform_cycle_of_error (Circuit.cycle_error hc ▸ hc)] at h
    cases h
  · rw [perform_cycle_of_ok hc]
    exact ⟨passes, Circuit.cycle_eq_ok hc⟩

theorem perform_restrict (hs : s.circuit.Sound) (hc : s.circuit.devices.Closed S)
    (ht : t.circuit.devices = s.circuit.devices.restrict S) {op : Operation}
    (hop : op.isDriving = true) (hok : (s.perform op).1.isFailedCycle = false)
    (hok' : (t.perform op).1.isFailedCycle = false) :
    (t.perform op).2.circuit.devices = (s.perform op).2.circuit.devices.restrict S ∧
      (s.perform op).2.circuit.devices.wiring = s.circuit.devices.wiring := by
  obtain ⟨hw, hl⟩ := hs
  cases op with
  | setSwitch id v =>
    rw [devices_setSwitch, devices_setSwitch, ht, Registry.restrict_setSwitch hw hc]
    refine ⟨rfl, ?_⟩
    cases hset : s.circuit.devices.setSwitch id v with
    | none => rfl
    | some r => exact hw.wiring_setSwitch hset
  | cycle =>
    obtain ⟨p, hp⟩ := cycle_of_not_failed hok
    obtain ⟨q, hq⟩ := cycle_of_not_failed hok'
    rw [ht] at hq
    exact ⟨Registry.cycle_restrict hw hl hc hp hq, (Registry.consistent_cycle hw hl hp).1⟩
  | _ => cases hop

theorem run_restrict (hs : s.circuit.Sound) (hc : s.circuit.devices.Closed S)
    (ht : t.circuit.devices = s.circuit.devices.restrict S) {ops : List Operation}
    (hops : ∀ op ∈ ops, op.isDriving = true)
    (hok : ∀ reply ∈ (s.run ops).1, reply.isFailedCycle = false)
    (hok' : ∀ reply ∈ (t.run ops).1, reply.isFailedCycle = false) :
    (t.run ops).2.circuit.devices = (s.run ops).2.circuit.devices.restrict S ∧
      (s.run ops).2.circuit.devices.wiring = s.circuit.devices.wiring := by
  induction ops generalizing s t with
  | nil => exact ⟨ht, rfl⟩
  | cons op ops ih =>
    obtain ⟨hop, hops⟩ := List.forall_mem_cons.1 hops
    obtain ⟨hok, hoks⟩ := List.forall_mem_cons.1 hok
    obtain ⟨hok', hoks'⟩ := List.forall_mem_cons.1 hok'
    obtain ⟨hstep, hwiring⟩ := perform_restrict hs hc ht hop hok hok'
    have hdamage : op.isDamage = false := by cases op <;> first | rfl | cases hop
    obtain ⟨hrun, hwirings⟩ := ih (sound_perform hs hdamage) (hc.of_wiring_eq hwiring) hstep hops
      hoks hoks'
    exact ⟨hrun, hwirings.trans hwiring⟩

/-- A device depends on nothing but what drives it. Devices among which are all that drive one of
them behave as they do in a circuit of their own, as long as no cycle fails. If two such parts make
up the circuit then a cycle succeeds that succeeds in both. -/
theorem run_part (hs : s.Reachable) :
    (∀ S, s.circuit.devices.Closed S → ∀ ops, (∀ op ∈ ops, op.isDriving = true) →
      (∀ reply ∈ (s.run ops).1, reply.isFailedCycle = false) →
      (∀ reply ∈ ((s.restrict S).run ops).1, reply.isFailedCycle = false) →
      ∀ id, S id = true → ((s.restrict S).run ops).2.circuit.devices.device? id =
        (s.run ops).2.circuit.devices.device? id) ∧
    ∀ S T, s.circuit.devices.Closed S → s.circuit.devices.Closed T →
      (∀ id ∈ s.circuit.devices.ids, S id = true ∨ T id = true) →
      ((s.restrict S).perform .cycle).1.isFailedCycle = false →
      ((s.restrict T).perform .cycle).1.isFailedCycle = false →
      (s.perform .cycle).1.isFailedCycle = false := by
  have hsound := hs.sound
  refine ⟨fun S hc ops hops hok hok' id hid => ?_, fun S T hS hT hcover hokS hokT => ?_⟩
  · obtain ⟨hrun, hwiring⟩ := run_restrict (t := s.restrict S) hsound hc rfl hops hok hok'
    rw [hrun]
    exact Registry.device?_restrict (hsound.wellFormed.of_wiring_eq hwiring)
      (hc.of_wiring_eq hwiring) hid
  · obtain ⟨p, hp⟩ := cycle_of_not_failed hokS
    obtain ⟨q, hq⟩ := cycle_of_not_failed hokT
    obtain ⟨passes, r, hr⟩ :=
      Registry.cycle_of_parts hsound.wellFormed hsound.latched hS hT hcover hp hq
    have hcircuit : s.circuit.cycle =
        (.ok passes, { s.circuit with devices := r, lastPasses := passes }) := by
      rw [Circuit.cycle, EStateM.run, hr]
    rw [perform_cycle_of_ok hcircuit]
    rfl

/-- A latch of two gates that read each other, and a flip-flop that toggles with its clock. -/
def latchAndToggle : List Operation :=
  [.create .switch reset (.ofString "0"), .create .switch set (.ofString "1"),
    .create .clock clock (.ofString "1"), .create .nor hold (.ofString "2"),
    .create .dtype flipFlop [], .create .nor hold' (.ofString "2"),
    .create .switch low (.ofString "0"), .connect reset none hold Pin.i1,
    .connect hold' none hold Pin.i2, .connect hold none hold' Pin.i1,
    .connect set none hold' Pin.i2, .connect flipFlop (some Pin.qbar) flipFlop Pin.data,
    .connect clock none flipFlop Pin.clk, .connect low none flipFlop Pin.set,
    .connect low none flipFlop Pin.clear]
where
  reset : NameId := 22
  set : NameId := 23
  clock : NameId := 24
  hold : NameId := 25
  flipFlop : NameId := 26
  hold' : NameId := 27
  low : NameId := 28
  latch : List NameId := [reset, set, hold, hold']
  toggle : List NameId := [clock, flipFlop, low]

theorem run_part_latchAndToggle :
    let s := ((start {}).run latchAndToggle).2
    let latch := fun id => latchAndToggle.latch.contains id
    let ops := [.cycle, .setSwitch latchAndToggle.reset true, .cycle,
      .setSwitch latchAndToggle.set false, .setSwitch latchAndToggle.low true, .cycle]
    let id := latchAndToggle.hold'
    ((s.restrict latch).run ops).2.circuit.devices.device? id =
        (s.run ops).2.circuit.devices.device? id ∧
      (s.perform .cycle).1.isFailedCycle = false := by
  intro s latch ops id
  have hs : s.Reachable := ⟨_, _, by decide, rfl⟩
  have hlatch : s.circuit.devices.Closed latch := by
    unfold Registry.Closed
    decide +kernel
  have htoggle : s.circuit.devices.Closed fun id => latchAndToggle.toggle.contains id := by
    unfold Registry.Closed
    decide +kernel
  obtain ⟨hpart, hparts⟩ := run_part hs
  constructor
  · exact hpart latch hlatch ops (by decide) (by decide +kernel) (by decide +kernel) id (by decide)
  · exact hparts latch _ hlatch htoggle (by decide +kernel) (by decide +kernel)
      (by decide +kernel)

end Session

end GateSim
