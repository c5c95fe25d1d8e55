import Patchbay.Proofs.Plan.FirstBlock

/-! # Nodes within the limit

A body of its own that asks for too many cells is faulted, and a promoted node gives what the output
inside it gives. An input takes a vector from outside as it is. So when the vectors that the inputs
read are within the limit, all nodes are, at any depth of nesting, and so are all legs that a length
is ever asked for.
-/

namespace Patchbay

theorem one_le_maxLength : 1 ≤ maxLength := by decide

variable [Platform]

/-- Vectors within the limit. -/
def Legs.Limited (legs : Legs) : Prop := ∀ leg ∈ legs, leg.length ≤ maxLength

/-- All nodes of a plan are within the limit, and so are those of the plans inside it. -/
inductive Plan.Limited : Plan → Prop
  | intro {plan : Plan} (nodes : ∀ p ∈ plan.nodes, p.region.length ≤ maxLength)
    (inside : ∀ n p, plan.inner? n = some p → Plan.Limited p) : Plan.Limited plan

def Entry.Limited (externals : Legs) (e : Entry) : Prop :=
  ∀ i v, e.index = some i → externals[i]? = some v → v.length ≤ maxLength

theorem Plan.Limited.nodes {plan : Plan} (h : plan.Limited) :
    ∀ p ∈ plan.nodes, p.region.length ≤ maxLength := by
  cases h with
  | intro nodes _ => exact nodes

theorem Plan.Limited.outputRegion {plan : Plan} (h : plan.Limited) :
    plan.outputRegion.length ≤ maxLength := by
  rw [Plan.outputRegion, region?]
  cases hp : plan.node? plan.output with
  | none => exact Nat.zero_le _
  | some p => exact h.nodes p (List.mem_of_find?_eq_some hp)

namespace Legs.Limited
variable {legs : Legs}

omit [Platform] in
theorem leg (h : legs.Limited) (slot : Nat) : (legs.leg slot).length ≤ maxLength := by
  rw [Legs.leg]
  cases hl : legs[slot]? with
  | none => exact Nat.zero_le _
  | some leg => exact h leg (List.mem_of_getElem? hl)

omit [Platform] in
theorem outer_lt (h : legs.Limited) (x y : Nat) :
    Broadcast.outer.length (legs.leg x).length (legs.leg y).length < 2 ^ 64 := by
  have product : Broadcast.outer.length (legs.leg x).length (legs.leg y).length ≤
      maxLength * maxLength := Nat.mul_le_mul (h.leg x) (h.leg y)
  exact product.trans_lt (by decide)

theorem entry (h : legs.Limited) (e : Entry) : e.Limited legs :=
  fun _ v _ hv => h v (List.mem_of_getElem? hv)

end Legs.Limited

section Tried
variable {expand : NodeId → Legs → Except CompileError Plan} {externals legs : Legs} {e : Entry}
  {done : List Trial}

/-- What a body gives is within the limit, unless it comes from outside. -/
theorem Entry.yield_limited {attached : List Bool} {y : Yield} (inputs : e.Limited externals)
    (inner : ∀ plan, expand e.source legs = .ok plan → (plan.firstOutput legs).length ≤ maxLength)
    (hy : e.yield expand externals legs attached = .ok y) : y.cells.length ≤ maxLength := by
  unfold Entry.yield at hy
  split at hy
  · rename_i k _
    split at hy
    · cases hy
    · split at hy
      · cases hy
      · rename_i n _ hn
        cases hy
        rw [k.length_fill, List.length_replicate]
        exact Nat.le_of_not_lt hn
  · cases hy
    cases hi : e.index with
    | none => exact one_le_maxLength
    | some i =>
      rw [Option.bind_some]
      cases hv : externals[i]? with
      | none => exact one_le_maxLength
      | some v => exact inputs i v hi hv
  · split at hy
    · cases hy
    · rename_i plan hp
      cases hy
      exact inner plan hp

theorem Entry.legs_limited (cells : ∀ t ∈ done, t.cells.length ≤ maxLength)
    (hl : e.legs done = .ok legs) : legs.Limited := by
  intro leg mem
  obtain ⟨⟨⟨slot, inlet⟩, number⟩, -, read⟩ := exists_of_forall₂ (mapM_eq_ok_iff.1 hl).flip mem
  rw [Entry.leg] at read
  split at read
  · cases read
    exact one_le_maxLength
  · rename_i t ht
    split at read
    · cases read
    · cases read
      obtain ⟨_, _, ht⟩ := Option.bind_eq_some_iff.1 ht
      rw [List.length_map]
      exact cells t (mem_of_trial? ht).1

/-- By induction on the trials: the legs of each come from those before it. -/
theorem Tried.limited (ht : Tried expand externals done)
    (inputs : ∀ t ∈ done, t.toEntry.Limited externals)
    (inner : ∀ n legs plan, Legs.Limited legs → expand n legs = .ok plan →
      (plan.firstOutput legs).length ≤ maxLength) : ∀ t ∈ done, t.cells.length ≤ maxLength := by
  induction done with
  | nil => exact fun _ h => nomatch h
  | cons t done ih =>
    rw [List.forall_mem_cons] at inputs ⊢
    have earlier := ih ht.2 inputs.2
    refine ⟨?_, earlier⟩
    have tried := ht.1
    rw [Entry.tryAfter] at tried
    split at tried
    · rw [Trial.cells, ← Except.ok.inj tried]
      exact Nat.zero_le _
    · cases hl : t.toEntry.legs done with
      | error => simp [hl, Except.map] at tried
      | ok legs =>
        simp only [hl, Except.map, Except.ok.injEq] at tried
        have limited := Entry.legs_limited earlier hl
        rw [Trial.cells]
        cases ho : t.outcome with
        | error => exact Nat.zero_le _
        | ok y =>
          have outcome := (congrArg Trial.outcome tried).trans ho
          exact Entry.yield_limited inputs.1 (fun plan => inner _ legs plan limited) outcome

end Tried

namespace Net
variable {net : Net} {output : NodeId} {externals legs : Legs} {plan : Plan}

/-- The plan of a promoted node on legs within the limit, when compiles of its net keep it. -/
theorem firstOutput_limited (hd : net.Deep WellFormed)
    (nested : ∀ n u, net.template? n = some u → ∀ legs plan, Legs.Limited legs →
      u.net.compile u.output legs = .ok plan → plan.Limited)
    {n : NodeId} (limited : legs.Limited) (hp : net.expand n legs = .ok plan) :
    (plan.firstOutput legs).length ≤ maxLength := by
  rw [expand] at hp
  cases hu : net.template? n with
  | none => simp [hu] at hp
  | some u =>
    rw [hu] at hp
    have steady := compile_steady (hd.inside hu).steady hp
    rw [steady.length_firstOutput]
    exact (nested n u hu legs plan limited hp).outputRegion

/-- By induction on the nesting: a compile keeps to the limit when the vectors do that it reads. -/
theorem Deep.compile_limited (hd : net.Deep WellFormed)
    (inputs : ∀ e ∈ net.entries output, e.Limited externals)
    (hp : net.compile output externals = .ok plan) : plan.Limited := by
  induction hd generalizing output externals plan with
  | @intro net here inside ih =>
    have nested (n : NodeId) (u : Template) (hu : net.template? n = some u) (legs : Legs)
        (plan : Plan) (limited : legs.Limited) (hc : u.net.compile u.output legs = .ok plan) :
        plan.Limited := ih n u hu (fun e _ => limited.entry e) hc
    obtain ⟨trials, ht, rfl⟩ := (compile_eq_ok here).1 hp
    have cells : ∀ t ∈ trials, t.cells.length ≤ maxLength := fun t hm =>
      ht.tried.limited (fun t hm => inputs _ (ht.mem_entries (List.mem_reverse.1 hm)))
        (fun n legs plan => firstOutput_limited (.intro here inside) nested) t
        (List.mem_reverse.2 hm)
    refine .intro (fun p hm => ?_) fun n p hi => ?_
    · obtain ⟨t, mem, rfl⟩ := List.mem_map.1 hm
      exact (ht.regionOf_output mem).1.trans_le (cells t mem)
    · obtain ⟨q, hq, hi⟩ := Option.bind_eq_some_iff.1 hi
      rw [Plan.node?_ofTrials] at hq
      obtain ⟨t, found, rfl⟩ := Option.map_eq_some_iff.1 hq
      have hm := (mem_of_trial? found).1
      obtain ⟨u, hu, compiled⟩ := ht.compile_inner hm hi
      have fitting := (ht.sound_of_fault hm (Trial.fault_of_inner hi)).2.1
      have limited := Entry.legs_limited cells (legs_eq_ok.2 ⟨fitting, rfl⟩)
      exact nested _ u hu _ p limited compiled

/-- The legs for which a compile asks lengths: those of its own nodes, and those in the compiles of
its promoted nodes. -/
inductive Asks : Net → NodeId → Legs → Legs → Prop
  | own {net : Net} {output : NodeId} {externals legs : Legs} {done : List Trial} {e : Entry} :
    Tried net.expand externals done →
    done.reverse.map (·.toEntry) ++ [e] <+: net.entries output → e.legs done = .ok legs →
    Asks net output externals legs
  | nested {net : Net} {output : NodeId} {externals seen legs : Legs} {done : List Trial}
    {e : Entry} {u : Template} :
    Tried net.expand externals done →
    done.reverse.map (·.toEntry) ++ [e] <+: net.entries output → e.legs done = .ok seen →
    net.template? e.source = some u → Asks u.net u.output seen legs →
    Asks net output externals legs

/-- When the vectors are within the limit that a compile reads, all legs are for which it asks
lengths. -/
theorem Asks.limited (h : net.Asks output externals legs) (hd : net.Deep WellFormed)
    (inputs : ∀ e ∈ net.entries output, e.Limited externals) : legs.Limited := by
  have own {net : Net} {output : NodeId} {externals legs : Legs} {done : List Trial} {e : Entry}
      (hd : net.Deep WellFormed) (inputs : ∀ e ∈ net.entries output, e.Limited externals)
      (tried : Tried net.expand externals done)
      (before : done.reverse.map (·.toEntry) ++ [e] <+: net.entries output)
      (hl : e.legs done = .ok legs) : legs.Limited := by
    refine Entry.legs_limited (tried.limited (fun t ht => inputs _ ?_) ?_) hl
    · exact before.subset (List.mem_append_left _
        (List.mem_map_of_mem (List.mem_reverse.2 ht)))
    · exact fun n legs plan => firstOutput_limited hd fun n u hu legs plan limited hc =>
        (hd.inside hu).compile_limited (fun e _ => limited.entry e) hc
  induction h with
  | own tried before hl => exact own hd inputs tried before hl
  | nested tried before hl hu _ ih =>
    have seen := own hd inputs tried before hl
    exact ih (hd.inside hu) fun e _ => seen.entry e

end Net
end Patchbay
