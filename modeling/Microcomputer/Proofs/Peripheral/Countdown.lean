import Microcomputer.Proofs.MemoryMap.Time

/-! The timer in closed form. A counter counts down, starts again from its reload value when it
runs out, and comes back to that value once a period; so what any number of clock cycles does to
a channel can be said without running them: `IntervalTimer.counts_down`. -/

namespace Microcomputer

/-! ### One counter -/

namespace Counter

variable {enabled : Bool} {n : Nat} {c : Counter}

/-- Clock cycles up to and with the one on which the counter runs out. -/
def remaining (c : Counter) : Nat := max c.count.toNat 1

/-- Clock cycles from one start of the counter to the next. -/
def period (c : Counter) : Nat := max c.reload.toNat 1

/-- The counter lower by `n`. -/
def lowered (n : Nat) (c : Counter) : Counter :=
  { c with count := BitVec.ofNat 32 (c.count.toNat - n) }

/-- The counter after it has run out. -/
def restarted (enabled : Bool) (c : Counter) : Counter :=
  { c with count := c.reload, pending := c.pending || enabled }

theorem toNat_lowered (n : Nat) (c : Counter) : (c.lowered n).count.toNat = c.count.toNat - n := by
  have hlt := c.count.isLt
  rw [lowered, BitVec.toNat_ofNat, Nat.mod_eq_of_lt (by omega)]

theorem clock_of_le (h : c.count.toNat ≤ 1) : c.clock enabled = c.restarted enabled :=
  if_pos h

theorem clock_lowered (h : n + 1 < c.count.toNat) :
    (c.lowered n).clock enabled = c.lowered (n + 1) := by
  have hcount : 1 < (c.lowered n).count.toNat := by
    rw [toNat_lowered]
    omega
  have hone : (1 : Word) ≤ (c.lowered n).count := Nat.le_of_lt hcount
  rw [clock, if_neg (fun hle : (c.lowered n).count ≤ 1 => Nat.not_le.mpr hcount hle)]
  refine congrArg (fun count => { c with count := count }) (BitVec.eq_of_toNat_eq ?_)
  rw [BitVec.toNat_sub_of_le hone, toNat_lowered]
  exact (Nat.sub_sub _ _ _).trans (toNat_lowered (n + 1) c).symm

theorem run_succ (enabled : Bool) (n : Nat) (c : Counter) :
    c.run enabled (n + 1) = (c.run enabled n).clock enabled :=
  (run_add enabled n 1 c).symm

/-- Until it runs out, a counter counts the cycles. -/
theorem run_of_lt (h : n < c.remaining) : c.run enabled n = c.lowered n := by
  unfold remaining at h
  induction n with
  | zero => simp [run, lowered]
  | succ n ih => rw [run_succ, ih (by omega), clock_lowered (by omega)]

theorem run_remaining : c.run enabled c.remaining = c.restarted enabled := by
  obtain ⟨n, hn⟩ : ∃ n, c.remaining = n + 1 := ⟨c.remaining - 1, by unfold remaining; omega⟩
  have hlast : (c.lowered n).count.toNat ≤ 1 := by
    rw [toNat_lowered]
    unfold remaining at hn
    omega
  rw [hn, run_succ, run_of_lt (hn ▸ n.lt_succ_self), clock_of_le hlast]
  rfl

/-- A counter that has run out goes round: only the cycles since its last start count. -/
theorem run_restarted (enabled : Bool) (c : Counter) (n : Nat) :
    (c.restarted enabled).run enabled n = (c.restarted enabled).lowered (n % c.period) := by
  induction n using Nat.strongRecOn with
  | ind n ih =>
    rcases Nat.lt_or_ge n c.period with hlt | hge
    · rw [Nat.mod_eq_of_lt hlt]
      exact run_of_lt hlt
    · have hperiod : 0 < c.period := Nat.le_max_right _ _
      -- a period leads back to where it began, because a request that stands stays
      have hround : (c.restarted enabled).run enabled c.period = c.restarted enabled := by
        refine (run_remaining (c := c.restarted enabled)).trans ?_
        simp [restarted]
      calc (c.restarted enabled).run enabled n
        _ = ((c.restarted enabled).run enabled c.period).run enabled (n - c.period) := by
          rw [run_add, Nat.add_sub_cancel' hge]
        _ = (c.restarted enabled).lowered ((n - c.period) % c.period) := by
          rw [hround, ih _ (by omega)]
        _ = (c.restarted enabled).lowered (n % c.period) := by rw [← Nat.mod_eq_sub_mod hge]

/-- From the cycle on which it runs out, a counter is known by the cycles since. -/
theorem run_of_le (h : c.remaining ≤ n) :
    c.run enabled n = (c.restarted enabled).lowered ((n - c.remaining) % c.period) := by
  rw [← run_restarted, ← run_remaining, run_add, Nat.add_sub_cancel' h]

theorem reload_run (enabled : Bool) (n : Nat) (c : Counter) :
    (c.run enabled n).reload = c.reload := by
  rcases Nat.lt_or_ge n c.remaining with hlt | hge
  · rw [run_of_lt hlt, lowered]
  · rw [run_of_le hge, lowered, restarted]

end Counter

/-! ### Both channels -/

namespace IntervalTimer

inductive Channel where
  | first
  | second
deriving DecidableEq

def channel (t : IntervalTimer) : Channel → Counter
  | .first => t.first
  | .second => t.second

/-- The run bit of a channel. -/
def runs (t : IntervalTimer) : Channel → Bool
  | .first => t.control.getLsbD 0
  | .second => t.control.getLsbD 2

/-- The interrupt bit of a channel. -/
def interrupts (t : IntervalTimer) : Channel → Bool
  | .first => t.control.getLsbD 1
  | .second => t.control.getLsbD 3

theorem channel_tick (t : IntervalTimer) (n : Nat) (i : Channel) :
    (t.tick n).channel i =
      if t.runs i then (t.channel i).run (t.interrupts i) n else t.channel i := by
  cases i <;> rfl

/-- What `n` clock cycles do to the timer. A channel that is stopped stays as it is. One that
runs counts down until it runs out; from then on its count is its reload value less the cycles
since its last start, and it asks for an interrupt if it may. Reload values and control byte
never change, and cycles add up. -/
theorem counts_down (t : IntervalTimer) (n : Nat) :
    (t.tick n).control = t.control ∧
    (∀ i, let before := t.channel i
      let after := (t.tick n).channel i
      after.reload = before.reload ∧
      (¬t.runs i → after = before) ∧
      (t.runs i → n < max before.count.toNat 1 →
        after.count.toNat = before.count.toNat - n ∧ after.pending = before.pending) ∧
      (t.runs i → max before.count.toNat 1 ≤ n →
        after.count.toNat = before.reload.toNat -
          (n - max before.count.toNat 1) % max before.reload.toNat 1 ∧
        after.pending = (before.pending || t.interrupts i))) ∧
    ∀ a b, (t.tick a).tick b = t.tick (a + b) := by
  refine ⟨rfl, fun i => ?_, t.tick_add⟩
  let before := t.channel i
  change _ ∧ _ ∧ (_ → n < before.remaining → _) ∧ (_ → before.remaining ≤ n → _)
  rw [channel_tick]
  by_cases hruns : t.runs i
  · rw [if_pos hruns]
    refine ⟨Counter.reload_run _ n _, fun h => absurd hruns h, fun _ hlt => ?_, fun _ hle => ?_⟩
    · rw [Counter.run_of_lt hlt]
      exact ⟨before.toNat_lowered n, rfl⟩
    · rw [Counter.run_of_le hle]
      exact ⟨Counter.toNat_lowered _ _, rfl⟩
  · rw [if_neg hruns]
    exact ⟨rfl, fun _ => rfl, fun h => absurd h hruns, fun h => absurd h hruns⟩

/-- A first channel that stands at zero with a period of three and may ask for an interrupt, and
a second one with the greatest period that may not. After five cycles the first has run out on the
first of them and once more, and the second has just run out. -/
theorem counts_down_five :
    let t : IntervalTimer := ⟨⟨3, 0, false⟩, ⟨0xFFFFFFFF, 5, false⟩, 0x07⟩
    t.runs .first ∧ max t.first.count.toNat 1 ≤ 5 ∧
      (t.tick 5).first.count.toNat = 3 - (5 - 1) % 3 ∧ (t.tick 5).first.pending = true ∧
      t.runs .second ∧ max t.second.count.toNat 1 ≤ 5 ∧
      (t.tick 5).second.count.toNat = 0xFFFFFFFF ∧ (t.tick 5).second.pending = false := by
  intro t
  obtain ⟨-, hchannels, -⟩ := t.counts_down 5
  obtain ⟨-, -, -, hfirst⟩ := hchannels .first
  obtain ⟨-, -, -, hsecond⟩ := hchannels .second
  have hruns : t.runs .first ∧ t.runs .second := by decide
  have hcount : max t.first.count.toNat 1 ≤ 5 ∧ max t.second.count.toNat 1 ≤ 5 := by decide
  obtain ⟨hfirst, hasked⟩ := hfirst hruns.1 hcount.1
  obtain ⟨hsecond, hquiet⟩ := hsecond hruns.2 hcount.2
  exact ⟨hruns.1, hcount.1, hfirst, hasked.trans (by decide), hruns.2, hcount.2, hsecond,
    hquiet.trans (by decide)⟩

end IntervalTimer

end Microcomputer
