import Mathlib.Data.List.Chain
import Mathlib.Data.List.Perm.Subperm
import Mathlib.Logic.Relation
import Mathlib.Order.Lattice.Nat
import GateSim.Proofs.Settle

/-!
# Gates without loops

If no gate reads itself, not even through other gates (`Registry.Acyclic`), then gates can be
evaluated from what they read (`Registry.eval`), and this is the only solution of the gate
equations. Settling finds it whatever the values are at first. How long that takes is a matter of
the order in which the gates were made: in one pass all gates along a path are put right up to the
next late edge, where a gate reads one that was made after it (`Registry.SettledUpTo`).
-/

namespace GateSim.Registry

variable {r r' : Registry} {f g : Valuation}

/-- The gate `b` has an input whose source is the gate `a`. -/
def Reads (r : Registry) (b a : NameId) : Prop :=
  r.isGate a = true ∧ ∃ d ∈ r.devices, d.id = b ∧ d.kind.isGate = true ∧
    ∃ pin s, (pin, some s) ∈ d.inputs ∧ s.device = a

/-- No gate reads itself, not even through other gates. -/
def Acyclic (r : Registry) : Prop := ∀ a, ¬ Relation.TransGen r.Reads a a

/-- Gates, each of which reads the next one. -/
structure Path (r : Registry) (p : List NameId) : Prop where
  gates : ∀ a ∈ p, r.isGate a = true
  chain : p.IsChain r.Reads

/-- How often along a path a gate reads one that was made after it. -/
def lateEdges (r : Registry) : List NameId → Nat
  | b :: a :: p => (if r.ids.idxOf b < r.ids.idxOf a then 1 else 0) + r.lateEdges (a :: p)
  | _ => 0

/-- The numbers of late edges that paths have. -/
def lateCounts (r : Registry) : Set Nat := {m | ∃ p, r.Path p ∧ r.lateEdges p = m}

/-- Evaluates a gate from the gates that it reads, and these from the ones that they read, that many
gates deep. -/
def evalWithin (r : Registry) : Nat → Valuation
  | 0 => fun _ => false
  | n + 1 => fun id =>
    match r.device? id with
    | some d => r.next (r.evalWithin n) d
    | none => false

/-- Evaluates a gate from the gates that it reads. -/
def eval (r : Registry) : Valuation := r.evalWithin r.size

/-! ### Paths -/

theorem Reads.isGate (h : r.WellFormed) {a b : NameId} (hr : r.Reads b a) : r.isGate b = true := by
  obtain ⟨-, d, hd, rfl, hg, -⟩ := hr
  rw [isGate_of_mem h hd, hg]

theorem Path.singleton {a : NameId} (ha : r.isGate a = true) : r.Path [a] :=
  ⟨by simpa using ha, .singleton a⟩

theorem Path.cons (h : r.WellFormed) {a b : NameId} {p : List NameId} (hr : r.Reads b a)
    (hp : r.Path (a :: p)) : r.Path (b :: a :: p) :=
  ⟨List.forall_mem_cons.2 ⟨hr.isGate h, hp.gates⟩, .cons_cons hr hp.chain⟩

theorem Path.nodup (ha : r.Acyclic) {p : List NameId} (hp : r.Path p) : p.Nodup := by
  have hchain : p.IsChain (Relation.TransGen r.Reads) := hp.chain.imp fun _ _ hr => .single hr
  refine (List.isChain_iff_pairwise.1 hchain).imp ?_
  rintro a b hab rfl
  exact ha a hab

theorem Path.length_le (h : r.WellFormed) (ha : r.Acyclic) {p : List NameId} (hp : r.Path p) :
    p.length ≤ r.size := by
  have hsub : p ⊆ r.ids := by
    intro a hmem
    obtain ⟨d, hd, rfl, -⟩ := (isGate_iff h).1 (hp.gates a hmem)
    exact List.mem_map_of_mem hd
  have hlen := ((hp.nodup ha).subperm hsub).length_le
  rwa [ids, List.length_map] at hlen

theorem lateEdges_le_length (p : List NameId) : r.lateEdges p ≤ p.length := by
  induction p with
  | nil => exact Nat.le_refl _
  | cons b p ih =>
    cases p with
    | nil => exact Nat.zero_le _
    | cons a p =>
      rw [lateEdges, List.length_cons]
      split <;> omega

theorem exists_isGreatest_lateCounts (h : r.WellFormed) (ha : r.Acyclic) :
    ∃ B, IsGreatest r.lateCounts B ∧ B ≤ r.size := by
  have hle : ∀ m ∈ r.lateCounts, m ≤ r.size := by
    rintro m ⟨p, hp, rfl⟩
    exact (lateEdges_le_length p).trans (hp.length_le h ha)
  have hne : r.lateCounts.Nonempty := ⟨0, [], ⟨by simp, .nil⟩, rfl⟩
  have hmem := Nat.sSup_mem hne ⟨r.size, hle⟩
  exact ⟨_, ⟨hmem, fun m hm => le_csSup ⟨r.size, hle⟩ hm⟩, hle _ hmem⟩

theorem idxOf_ids (h : r.WellFormed) {j : Nat} {d : Device} (hj : r.devices[j]? = some d) :
    r.ids.idxOf d.id = j := by
  obtain ⟨hlt, heq⟩ := List.getElem?_eq_some_iff.1 hj
  have hlt' : j < r.ids.length := by rwa [length_ids]
  have hid : r.ids[j] = d.id := by simp [ids, heq]
  rw [← hid]
  exact h.nodup_ids.idxOf_getElem j hlt'

/-- No loop goes through gates that are ranked above what they read. -/
theorem acyclic_of_rank (rank : NameId → Nat)
    (hrank : ∀ d ∈ r.devices, d.kind.isGate = true → ∀ e ∈ d.inputs, ∀ s ∈ e.2,
      r.isGate s.device = true → rank s.device < rank d.id) : r.Acyclic := by
  have hreads : ∀ b a, r.Reads b a → rank a < rank b := by
    rintro b a ⟨ha, d, hd, rfl, hg, pin, s, hs, rfl⟩
    exact hrank d hd hg _ hs s rfl ha
  intro a hloop
  have hlt : ∀ b, Relation.TransGen r.Reads a b → rank b < rank a := by
    intro b hb
    induction hb with
    | single hr => exact hreads _ _ hr
    | tail _ hr ih => exact (hreads _ _ hr).trans ih
  exact Nat.lt_irrefl _ (hlt a hloop)

/-! ### Evaluation -/

theorem next_congr_of_reads {d : Device} (hd : d ∈ r.devices) (hg : d.kind.isGate = true)
    (hfg : ∀ a, r.Reads d.id a → f a = g a) : r.next f d = r.next g d := by
  unfold next
  congr 1
  refine List.map_congr_left fun e he => ?_
  obtain ⟨pin, s⟩ := e
  cases s with
  | none => rfl
  | some s =>
    show r.value f s = r.value g s
    unfold value
    split
    · next hs => exact hfg _ ⟨hs, d, hd, rfl, hg, pin, s, he, rfl⟩
    · rfl

theorem evalWithin_succ (h : r.WellFormed) {d : Device} (hd : d ∈ r.devices) (n : Nat) :
    r.evalWithin (n + 1) d.id = r.next (r.evalWithin n) d := by
  rw [evalWithin]
  simp only [h.device?_of_mem hd]

/-- Evaluating deeper than all paths reach changes nothing. -/
theorem evalWithin_eq (h : r.WellFormed) {n m : Nat} (hnm : n ≤ m) {d : Device}
    (hd : d ∈ r.devices) (hg : d.kind.isGate = true)
    (hpaths : ∀ p, r.Path (d.id :: p) → p.length < n) :
    r.evalWithin m d.id = r.evalWithin n d.id := by
  induction n generalizing m d with
  | zero =>
    have hgate : r.isGate d.id = true := by rw [isGate_of_mem h hd, hg]
    exact absurd (hpaths [] (.singleton hgate)) (Nat.not_lt_zero _)
  | succ n ih =>
    obtain ⟨m, rfl⟩ : ∃ m', m = m' + 1 := ⟨m - 1, by omega⟩
    rw [evalWithin_succ h hd, evalWithin_succ h hd]
    refine next_congr_of_reads hd hg fun a hr => ?_
    obtain ⟨d', hd', rfl, hg'⟩ := (isGate_iff h).1 hr.1
    refine ih (by omega) hd' hg' fun p hp => ?_
    have := hpaths (d'.id :: p) (.cons h hr hp)
    rw [List.length_cons] at this
    omega

/-- Gates without loops can be evaluated from what they read. -/
theorem stable_eval (h : r.WellFormed) (ha : r.Acyclic) : r.Stable r.eval := by
  intro d hd hg
  have hdeeper := evalWithin_eq h (Nat.le_succ r.size) hd hg fun p hp => by
    have := hp.length_le h ha
    rw [List.length_cons] at this
    omega
  rw [eval, ← hdeeper, evalWithin_succ h hd]

/-! ### Passes -/

/-- During pass `k`, with place `i` next: the gates have their values of `g` as far as no path from
them has `k` late edges, or `k + 1` for those that took their turn in the pass. -/
def SettledUpTo (r : Registry) (k i : Nat) (f g : Valuation) : Prop :=
  ∀ j d, r.devices[j]? = some d → d.kind.isGate = true →
    (∀ p, r.Path (d.id :: p) → r.lateEdges (d.id :: p) < if j < i then k + 1 else k) →
    f d.id = g d.id

theorem settledUpTo_zero (h : r.WellFormed) : r.SettledUpTo 0 0 f g := by
  intro j d hj hg hlate
  have hgate : r.isGate d.id = true := by rw [isGate_of_mem h (List.mem_of_getElem? hj), hg]
  exact absurd (hlate [] (.singleton hgate)) (by simp)

theorem turn_of_ne (h : r.WellFormed) {i j : Nat} {d : Device} (hj : r.devices[j]? = some d)
    (hij : j ≠ i) : r.turn i f d.id = f d.id := by
  unfold turn
  cases hi : r.devices[i]? with
  | none => rfl
  | some d' =>
    have hne : d.id ≠ d'.id := by
      intro heq
      rw [← idxOf_ids h hj, ← idxOf_ids h hi, heq] at hij
      exact hij rfl
    show (if d'.kind.isGate then Function.update f d'.id (r.next f d') else f) d.id = f d.id
    split
    · exact Function.update_of_ne hne _ _
    · rfl

/-- The gates that a gate reads are put right before it is, those that it reads along a late edge in
the pass before. -/
theorem SettledUpTo.turn (h : r.WellFormed) (ha : r.Acyclic) (hg : r.Stable g) {k i : Nat}
    (hs : r.SettledUpTo k i f g) : r.SettledUpTo k (i + 1) (r.turn i f) g := by
  intro j d hj hgate hlate
  by_cases hij : j = i
  · subst hij
    have hd := List.mem_of_getElem? hj
    have hturn : r.turn j f d.id = r.next f d := by
      simp only [Registry.turn, hj, hgate, if_true, Function.update_self]
    rw [hturn, hg d hd hgate]
    refine next_congr_of_reads hd hgate fun a hr => ?_
    obtain ⟨d', hd', rfl, hgate'⟩ := (isGate_iff h).1 hr.1
    obtain ⟨j', hj'⟩ := List.getElem?_of_mem hd'
    refine hs j' d' hj' hgate' fun p hp => ?_
    have hpath := hlate (d'.id :: p) (.cons h hr hp)
    rw [lateEdges, idxOf_ids h hj, idxOf_ids h hj', if_pos (Nat.lt_succ_self j)] at hpath
    have hne : j' ≠ j := by
      rintro rfl
      rw [Option.some.inj (hj'.symm.trans hj)] at hr
      exact ha _ (.single hr)
    rcases Nat.lt_or_gt_of_ne hne with hlt | hlt
    · rw [if_pos hlt]
      omega
    · rw [if_neg (by omega)]
      rw [if_pos hlt] at hpath
      omega
  · rw [turn_of_ne h hj hij]
    refine hs j d hj hgate fun p hp => ?_
    have hiff : j < i + 1 ↔ j < i := by omega
    simpa only [hiff] using hlate p hp

theorem SettledUpTo.turns (h : r.WellFormed) (ha : r.Acyclic) (hg : r.Stable g) {k : Nat}
    (hs : r.SettledUpTo k 0 f g) (i : Nat) : r.SettledUpTo k i (r.turns i f) g := by
  induction i with
  | zero => exact hs
  | succ i ih => exact ih.turn h ha hg

theorem settledUpTo_iterate (h : r.WellFormed) (ha : r.Acyclic) (hg : r.Stable g) (k : Nat) :
    r.SettledUpTo k 0 (r.passed^[k] f) g := by
  induction k with
  | zero => exact settledUpTo_zero h
  | succ k ih =>
    rw [Function.iterate_succ_apply']
    intro j d hj hgate hlate
    obtain ⟨hlt, -⟩ := List.getElem?_eq_some_iff.1 hj
    -- at the end of a pass, all gates have taken their turn
    refine (ih.turns h ha hg r.size) j d hj hgate fun p hp => ?_
    show _ < if j < r.devices.length then k + 1 else k
    rw [if_pos hlt]
    simpa using hlate p hp

/-- One pass more than a path has late edges puts all gates right. -/
theorem iterate_passed_eq (h : r.WellFormed) (ha : r.Acyclic) (hg : r.Stable g) {B : Nat}
    (hB : B ∈ upperBounds r.lateCounts) {d : Device} (hd : d ∈ r.devices)
    (hgate : d.kind.isGate = true) : (r.passed^[B + 1] f) d.id = g d.id := by
  obtain ⟨j, hj⟩ := List.getElem?_of_mem hd
  refine settledUpTo_iterate h ha hg (B + 1) j d hj hgate fun p hp => ?_
  have := hB ⟨_, hp, rfl⟩
  rw [if_neg (Nat.not_lt_zero j)]
  omega

/-- The gate equations have one solution. -/
theorem Stable.eq (h : r.WellFormed) (ha : r.Acyclic) (hf : r.Stable f) (hg : r.Stable g)
    {d : Device} (hd : d ∈ r.devices) (hgate : d.kind.isGate = true) : f d.id = g d.id := by
  obtain ⟨B, hB, -⟩ := exists_isGreatest_lateCounts h ha
  have hfix : r.passed^[B + 1] f = f := Function.iterate_fixed hf.passed_eq (B + 1)
  rw [← iterate_passed_eq (f := f) h ha hg hB.2 hd hgate, hfix]

/-! ### Settling -/

/-- The gates with the values that they have when they are evaluated from what they read. -/
def evaluated (r : Registry) : Registry := r.setGates r.eval

/-- Settling evaluates the gates. It takes a pass for each late edge of a path, one to come to its
end, and one to see that nothing changes any more. -/
theorem settle_of_acyclic (h : r.WellFormed) (hf : r.floating = []) (ha : r.Acyclic) {B : Nat}
    (hB : IsGreatest r.lateCounts B) : ∃ passes ≤ B + 2, settle r = .ok passes r.evaluated := by
  have hstable := stable_eval h ha
  obtain ⟨B', hB', hle⟩ := exists_isGreatest_lateCounts h ha
  obtain rfl := hB.unique hB'
  -- enough passes are allowed
  have hlimit : B + 1 < r.settleLimit := by
    rw [settleLimit]
    omega
  have hreached : r.Stable (r.passed^[B + 1] r.gateValues) :=
    (stable_congr h fun d hd hg => iterate_passed_eq h ha hstable hB.2 hd hg).2 hstable
  rcases settle_eq h hf with ⟨k, -, hk, hfirst, heq⟩ | ⟨hnone, -⟩
  · have hkB : k ≤ B + 1 := by
      by_contra hlt
      exact hfirst (B + 1) (by omega) hreached
    have hdevices : r.setGates (r.passed^[k] r.gateValues) = r.evaluated :=
      setGates_congr fun d hd hg => hk.eq h ha hstable hd hg
    exact ⟨k + 1, by omega, by rw [heq, hdevices]⟩
  · exact absurd hreached (hnone _ hlimit)

/-! ### Loops are a matter of the wiring -/

theorem reads_of_wiring_eq (h : r.WellFormed) (hw : r'.wiring = r.wiring) : r'.Reads = r.Reads := by
  have hmono : ∀ {r r' : Registry}, r.WellFormed → r'.wiring = r.wiring →
      ∀ b a, r'.Reads b a → r.Reads b a := by
    rintro r r' h hw b a ⟨ha, d', hd', rfl, hg, pin, s, hs, hsa⟩
    obtain ⟨d, hd, hid, hkind, hin, -⟩ := exists_of_wiring_eq hw hd'
    exact ⟨isGate_of_wiring_eq h hw a ▸ ha, d, hd, hid, hkind ▸ hg, pin, s, hin ▸ hs, hsa⟩
  funext b a
  exact propext ⟨hmono h hw b a, hmono (h.of_wiring_eq hw) hw.symm b a⟩

theorem Acyclic.of_wiring_eq (h : r.WellFormed) (ha : r.Acyclic) (hw : r'.wiring = r.wiring) :
    r'.Acyclic := by
  rw [Acyclic, reads_of_wiring_eq h hw]
  exact ha

theorem lateCounts_of_wiring_eq (h : r.WellFormed) (hw : r'.wiring = r.wiring) :
    r'.lateCounts = r.lateCounts := by
  have hpath : ∀ p, r'.Path p ↔ r.Path p := fun p => by
    constructor <;> rintro ⟨hgates, hchain⟩ <;> refine ⟨fun a hmem => ?_, ?_⟩
    · rw [← isGate_of_wiring_eq h hw]; exact hgates a hmem
    · rwa [reads_of_wiring_eq h hw] at hchain
    · rw [isGate_of_wiring_eq h hw]; exact hgates a hmem
    · rwa [reads_of_wiring_eq h hw]
  have hlate : ∀ p, r'.lateEdges p = r.lateEdges p := fun p => by
    induction p with
    | nil => rfl
    | cons b p ih =>
      cases p with
      | nil => rfl
      | cons a p => rw [lateEdges, lateEdges, ih, ids_eq_of_wiring_eq hw]
  ext m
  exact exists_congr fun p => by rw [hpath, hlate]

end GateSim.Registry
