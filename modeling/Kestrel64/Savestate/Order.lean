import Kestrel64.Savestate.Fields

/-! # Save States: the Order of the Fields

    No version of `visitAll` reads a field that it has set before
    (`ordered_visitAll`), and the present one reads every field
    (`mem_visitAll`). Both are shown section by section.
-/

namespace Savestate

open Visitor

/-! ## Section 1: Sections -/

/-- The section a field is in. -/
def Field.part : Field → Nat
  | .sys _ => 0
  | .cpu _ => 1
  | .rcp _ => 2
  | .mem _ => 3
  | .rsp _ => 4
  | .rdp _ => 5
  | .ram _ => 6
  | .port _ _ => 6
  | .polls => 7

/-- The visits are in order and stay in section `i`. -/
structure InPart (i : Nat) (vs : Visits) : Prop where
  ordered : Ordered vs
  fields : ∀ k ∈ fields vs, k.part = i
  derived : ∀ k ∈ derived vs, k.part = i

theorem inPart_sys : InPart 0 visitSys := by
  constructor <;> decide

theorem inPart_cpu : InPart 1 visitCpu := by
  constructor <;> decide

theorem inPart_rcp : InPart 2 visitRcp := by
  constructor <;> decide

theorem inPart_memory (version : Nat) : InPart 3 (visitMemory version) := by
  unfold visitMemory
  split_ifs <;> constructor <;> decide

theorem inPart_rsp : InPart 4 visitRsp := by
  constructor <;> decide

theorem inPart_rdp (version : Nat) : InPart 5 (visitRdp version) := by
  unfold visitRdp
  split_ifs <;> constructor <;> decide

theorem inPart_ram (version : Nat) : InPart 6 (visitRam version) := by
  unfold visitRam
  split_ifs <;> constructor <;> decide

theorem inPart_movie : InPart 7 visitMovie := by
  constructor <;> decide

/-- Visits of the sections before `i`, in order. -/
structure Below (i : Nat) (vs : Visits) : Prop where
  ordered : Ordered vs
  fields : ∀ k ∈ Visitor.fields vs, k.part < i
  derived : ∀ k ∈ Visitor.derived vs, k.part < i

theorem below_nil : Below 0 [] where
  ordered := trivial
  fields := nofun
  derived := nofun

/-- The next section. -/
theorem Below.append {i : Nat} {vs ws : Visits} (h : Below i vs) (hws : InPart i ws) :
    Below (i + 1) (vs ++ ws) where
  ordered := ordered_append h.ordered hws.ordered
    (fun k hk hm => by have := h.fields k hk; have := hws.fields k hm; omega)
    (fun k hk hm => by have := h.derived k hk; have := hws.fields k hm; omega)
  fields := by
    intro k hk
    rw [fields_append] at hk
    rcases List.mem_append.mp hk with hk | hk
    · exact Nat.lt_succ_of_lt (h.fields k hk)
    · exact Nat.lt_succ_of_le (hws.fields k hk).le
  derived := by
    intro k hk
    rw [derived_append] at hk
    rcases List.mem_append.mp hk with hk | hk
    · exact Nat.lt_succ_of_lt (h.derived k hk)
    · exact Nat.lt_succ_of_le (hws.derived k hk).le

/-- No version reads a field that it has set. -/
theorem ordered_visitAll (version : Nat) : Ordered (visitAll version) := by
  have h : Below 8 ([] ++ visitSys ++ visitCpu ++ visitRcp ++ visitMemory version ++ visitRsp ++
      visitRdp version ++ visitRam version ++ visitMovie) :=
    (((((((below_nil.append inPart_sys).append inPart_cpu).append inPart_rcp).append
      (inPart_memory version)).append inPart_rsp).append (inPart_rdp version)).append
      (inPart_ram version)).append inPart_movie
  exact ordered_append h.ordered trivial (fun _ _ => List.not_mem_nil) fun _ _ => List.not_mem_nil

/-! ## Section 2: The present version -/

/-- The present version derives nothing. -/
theorem derived_visitAll : derived (visitAll 22) = [] := by
  simp only [visitAll, derived_append]
  rw [show derived visitSys = [] from rfl, show derived visitCpu = [] from rfl,
    show derived visitRcp = [] from rfl, show derived (visitMemory 22) = [] from rfl,
    show derived visitRsp = [] from rfl, show derived (visitRdp 22) = [] from rfl,
    show derived (visitRam 22) = [] from rfl, show derived visitMovie = [] from rfl]
  rfl

theorem rcp_mem (f : RcpField) : .rcp f ∈ fields visitRcp := by
  cases f <;> decide

theorem cpu_mem (f : CpuField) : .cpu f ∈ fields visitCpu := by
  cases f <;> decide

theorem rdp_mem {f : RdpField} (h : f ≠ .tl) : .rdp f ∈ fields (visitRdp 22) := by
  revert h
  cases f <;> decide

theorem port_mem (p : Fin 4) (f : PortField) : .port p f ∈ fields (visitRam 22) := by
  revert p
  cases f <;> decide

theorem palette_not_mem : Field.rdp .tl ∉ fields (visitAll 22) := by
  simp only [visitAll, fields_append, List.mem_append, not_or]
  decide

/-- It reads every field, but not the palette of the earlier ones. -/
theorem mem_visitAll {f : Field} : f ∈ fields (visitAll 22) ↔ f ≠ .rdp .tl := by
  refine ⟨fun h he => palette_not_mem (he ▸ h), fun hne => ?_⟩
  simp only [visitAll, fields_append, List.mem_append]
  cases f with
  | sys f =>
    have : Field.sys f ∈ fields visitSys := by cases f <;> decide
    simp [this]
  | cpu f => simp [cpu_mem f]
  | rcp f => simp [rcp_mem f]
  | mem f =>
    have : Field.mem f ∈ fields (visitMemory 22) := by cases f <;> decide
    simp [this]
  | rsp f =>
    have : Field.rsp f ∈ fields visitRsp := by cases f <;> decide
    simp [this]
  | rdp f =>
    have : f ≠ .tl := fun he => hne (he ▸ rfl)
    simp [rdp_mem this]
  | ram f =>
    have : Field.ram f ∈ fields (visitRam 22) := by cases f <;> decide
    simp [this]
  | port p f => simp [port_mem p f]
  | polls =>
    have : Field.polls ∈ fields visitMovie := by decide
    simp [this]

end Savestate
