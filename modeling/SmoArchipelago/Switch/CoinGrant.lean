import SmoArchipelago.Library.Runs

/-! # Coin grants: the high-water mark and the save file

The socket thread stores the lifetime total of a `coin_grant` message and the frame
thread adds what exceeds `coins_applied`. The mark lives in the process, the coins
in the save that is loaded.

## Implementation notes

A save is the list of its `addCoin` calls. Loading replaces the game's list by a
file's; restarting does so too and forgets the process memory. Whether `addCoin`
is in the game's symbol table is a parameter. -/

namespace SmoArchipelago.Switch.CoinGrant

open Library.Runs

/-- The process memory, the loaded game, the save files and the last total sent. -/
structure State where
  pendingCoinGrantTotal : ℤ
  coinsApplied : ℤ
  addCoinFn : Bool
  game : List ℤ
  files : ℕ → List ℤ
  lastTotal : ℤ

/-- A fresh process on a new game. -/
def start : State := ⟨0, 0, false, [], fun _ => [], 0⟩

inductive Event where
  | coinGrant (total : ℤ)
  | frame (holderCached : Bool)
  | save (file : ℕ)
  | load (file : ℕ)
  | restart (file : ℕ)

variable (symbolFound : Bool)

/-- `applyCoinGrant`: add what the total exceeds the mark by. Without the symbol the
mark is raised and nothing is added. -/
def applyCoinGrant (holderCached : Bool) (s : State) : State :=
  if s.pendingCoinGrantTotal ≤ s.coinsApplied then s
  else if !holderCached then s
  else if !s.addCoinFn && !symbolFound then { s with coinsApplied := s.pendingCoinGrantTotal }
  else
    { s with
      addCoinFn := true
      game := s.game ++ [s.pendingCoinGrantTotal - s.coinsApplied]
      coinsApplied := s.pendingCoinGrantTotal }

def step (s : State) : Event → State
  | .coinGrant total =>
      { s with
        pendingCoinGrantTotal := if 0 < total then total else s.pendingCoinGrantTotal
        lastTotal := total }
  | .frame holderCached => applyCoinGrant symbolFound holderCached s
  | .save file => { s with files := Function.update s.files file s.game }
  | .load file => { s with game := s.files file }
  | .restart file =>
      { s with
        pendingCoinGrantTotal := 0
        coinsApplied := 0
        addCoinFn := false
        game := s.files file }

/-- Totals are lifetime totals: they never fall. -/
def Legal (s : State) : Event → Prop
  | .coinGrant total => s.lastTotal ≤ total
  | _ => True

instance (s : State) : ∀ e, Decidable (Legal s e)
  | .coinGrant total => inferInstanceAs (Decidable (s.lastTotal ≤ total))
  | .frame _ | .save _ | .load _ | .restart _ => isTrue trivial

/-- How many more coins the last loaded file held than the process counted as
applied when it was loaded; a restarted process counts none. -/
def loadGap (s : State) (e : Event) (gap : ℤ) : ℤ :=
  match e with
  | .load file => (s.files file).sum - s.coinsApplied
  | .restart file => (s.files file).sum
  | _ => gap

/-- The mark never passes the last total, and before the first total there are no
coins anywhere. -/
structure Bounded (s : State) : Prop where
  applied_nonneg : 0 ≤ s.coinsApplied
  applied_le : s.coinsApplied ≤ s.lastTotal
  pending_le : s.pendingCoinGrantTotal ≤ s.lastTotal
  none_yet : s.lastTotal = 0 → s.game.sum = 0 ∧ ∀ k, (s.files k).sum = 0
  resolved : s.addCoinFn = true → symbolFound = true

/-- With the symbol the loaded game differs from the mark by the gap of the last load;
without it no coin is ever added. -/
structure Accounted (s : State) (gap : ℤ) : Prop where
  bounded : Bounded symbolFound s
  found : symbolFound = true → s.game.sum = s.coinsApplied + gap
  missing : symbolFound = false → s.game.sum = 0 ∧ ∀ k, (s.files k).sum = 0

theorem applyCoinGrant_accounted (s : State) (holderCached : Bool) (gap : ℤ)
    (h : Accounted symbolFound s gap) :
    Accounted symbolFound (applyCoinGrant symbolFound holderCached s) gap := by
  obtain ⟨⟨nonneg, le, pending, none_yet, resolved⟩, found, missing⟩ := h
  unfold applyCoinGrant
  split_ifs with idle noHolder noSymbol
  · exact ⟨⟨nonneg, le, pending, none_yet, resolved⟩, found, missing⟩
  · exact ⟨⟨nonneg, le, pending, none_yet, resolved⟩, found, missing⟩
  · have absent : symbolFound = false := by simp_all
    refine ⟨⟨?_, pending, pending, none_yet, resolved⟩, fun h => ?_, missing⟩
    · exact nonneg.trans (not_le.1 idle).le
    · rw [absent] at h
      cases h
  · have present : symbolFound = true := by
      cases symbolFound with
      | true => rfl
      | false => exact resolved (by simpa using noSymbol)
    refine ⟨⟨nonneg.trans (not_le.1 idle).le, pending, pending, fun zero => ?_, fun _ => present⟩,
      fun _ => ?_, fun h => ?_⟩
    · have none_sent : s.lastTotal = 0 := zero
      exfalso
      omega
    · have before := found present
      simp only [List.sum_append, List.sum_singleton]
      omega
    · rw [present] at h
      cases h

/-- Each legal step keeps the account. -/
theorem step_accounted (s : State) (e : Event) (gap : ℤ) (h : Accounted symbolFound s gap)
    (legal : Legal s e) : Accounted symbolFound (step symbolFound s e) (loadGap s e gap) := by
  cases e with
  | coinGrant total =>
      obtain ⟨⟨nonneg, le, pending, none_yet, resolved⟩, found, missing⟩ := h
      have grows : s.lastTotal ≤ total := legal
      refine ⟨⟨nonneg, le.trans grows, ?_, fun zero => none_yet ?_, resolved⟩, found, missing⟩
      · simp only [step]
        split_ifs <;> omega
      · simp only [step] at zero
        omega
  | frame holderCached => exact applyCoinGrant_accounted symbolFound s holderCached gap h
  | save file =>
      obtain ⟨⟨nonneg, le, pending, none_yet, resolved⟩, found, missing⟩ := h
      have files (all : s.game.sum = 0 ∧ ∀ k, (s.files k).sum = 0) (k : ℕ) :
          (Function.update s.files file s.game k).sum = 0 := by
        by_cases here : k = file
        · rw [here, Function.update_self]
          exact all.1
        · rw [Function.update_of_ne here]
          exact all.2 k
      refine ⟨⟨nonneg, le, pending, fun zero => ?_, resolved⟩, found, fun absent => ?_⟩
      · exact ⟨(none_yet zero).1, files (none_yet zero)⟩
      · exact ⟨(missing absent).1, files (missing absent)⟩
  | load file =>
      obtain ⟨⟨nonneg, le, pending, none_yet, resolved⟩, -, missing⟩ := h
      refine ⟨⟨nonneg, le, pending, fun zero => ?_, resolved⟩, fun _ => ?_, fun absent => ?_⟩
      · exact ⟨(none_yet zero).2 file, (none_yet zero).2⟩
      · simp only [step, loadGap]
        omega
      · exact ⟨(missing absent).2 file, (missing absent).2⟩
  | restart file =>
      obtain ⟨⟨nonneg, le, pending, none_yet, resolved⟩, -, missing⟩ := h
      refine ⟨⟨le_rfl, nonneg.trans le, nonneg.trans le, fun zero => ?_, ?_⟩, fun _ => ?_,
        fun absent => ?_⟩
      · exact ⟨(none_yet zero).2 file, (none_yet zero).2⟩
      · exact fun h => absurd h Bool.false_ne_true
      · simp only [step, loadGap]
        omega
      · exact ⟨(missing absent).2 file, (missing absent).2⟩

theorem start_accounted : Accounted symbolFound start 0 :=
  ⟨⟨le_rfl, le_rfl, le_rfl, fun _ => ⟨rfl, fun _ => rfl⟩, fun h => absurd h Bool.false_ne_true⟩,
    fun _ => rfl, fun _ => ⟨rfl, fun _ => rfl⟩⟩

theorem run_accounted (events : List Event) (legal : Along (step symbolFound) Legal start events) :
    Accounted symbolFound (run (step symbolFound) start events)
      (observe (step symbolFound) loadGap start events 0) :=
  observed_run (R := Accounted symbolFound) (step_accounted symbolFound)
    (start_accounted symbolFound) legal

/-- In a state where the last total has been applied, the loaded save holds exactly
that total if and only if `addCoin` resolves and the last file loaded held exactly
the coins counted as applied at that moment, or the total is zero. -/
theorem coins_exact_iff (events : List Event)
    (legal : Along (step symbolFound) Legal start events)
    (applied : (run (step symbolFound) start events).coinsApplied =
      (run (step symbolFound) start events).lastTotal) :
    (run (step symbolFound) start events).game.sum =
        (run (step symbolFound) start events).lastTotal ↔
      (symbolFound = true ∧ observe (step symbolFound) loadGap start events 0 = 0) ∨
        (run (step symbolFound) start events).lastTotal = 0 := by
  obtain ⟨⟨nonneg, le, pending, none_yet, resolved⟩, found, missing⟩ :=
    run_accounted symbolFound events legal
  cases symbolFound with
  | true =>
      have account := found rfl
      constructor
      · intro exact
        exact .inl ⟨rfl, by omega⟩
      · rintro (⟨-, gap⟩ | zero)
        · omega
        · rw [zero]
          exact (none_yet zero).1
  | false =>
      have none_added := (missing rfl).1
      constructor
      · intro exact
        exact .inr (by omega)
      · rintro (⟨h, -⟩ | zero)
        · cases h
        · rw [zero]
          exact none_added

/-- A total applied, saved, and applied again by the restarted process. -/
def restartRun : List Event :=
  [.coinGrant 100, .frame true, .save 0, .restart 0, .coinGrant 100, .frame true]

theorem coins_exact_iff_restartRun :
    (run (step true) start restartRun).game.sum = (run (step true) start restartRun).lastTotal ↔
      (true = true ∧ observe (step true) loadGap start restartRun 0 = 0) ∨
        (run (step true) start restartRun).lastTotal = 0 :=
  coins_exact_iff true restartRun (by decide) (by decide)

/-- The restarted process grants the total a second time. -/
theorem restart_grants_again :
    Along (step true) Legal start restartRun ∧
      (run (step true) start restartRun).coinsApplied =
        (run (step true) start restartRun).lastTotal ∧
      (run (step true) start restartRun).lastTotal = 100 ∧
      (run (step true) start restartRun).game.sum = 200 := by
  decide

end SmoArchipelago.Switch.CoinGrant
