import Mathlib.Data.List.Nodup

/-!
Tickets that are called once.

A waiting room has several queues, and everyone who joins one draws a
number. What has to hold of the numbers so that nobody is called twice and
nobody is forgotten: each number below the next one waits in exactly one
queue or was called, and was called once. Joining a queue and calling a
part at its front keep this.
-/

namespace MySQLight.Data

/-- Numbered tickets in queues: those below `next` were handed out, and
each of them waits in one of the queues or was called. -/
structure Tickets {κ : Type} (queue : κ → List Nat) (called : List Nat) (next : Nat) : Prop where
  waiting_lt : ∀ k, ∀ c ∈ queue k, c < next
  waiting_nodup : ∀ k, (queue k).Nodup
  waiting_disjoint : ∀ k k' c, c ∈ queue k → c ∈ queue k' → k = k'
  waiting_not_called : ∀ k, ∀ c ∈ queue k, c ∉ called
  called_lt : ∀ c ∈ called, c < next
  called_nodup : called.Nodup
  waits_or_called : ∀ c < next, c ∈ called ∨ ∃ k, c ∈ queue k

namespace Tickets

variable {κ : Type} {queue queue' : κ → List Nat} {called : List Nat} {next : Nat}

theorem empty : Tickets (fun _ : κ => []) [] 0 := by
  constructor <;> simp

/-- A ticket is handed out and put at the end of a queue. -/
theorem join (h : Tickets queue called next) {k : κ} (hk : queue' k = queue k ++ [next])
    (hother : ∀ k', k' ≠ k → queue' k' = queue k') : Tickets queue' called (next + 1) := by
  -- a ticket in a queue now is the new one, or was in the queue before
  have hmem {k' : κ} {c : Nat} (hc : c ∈ queue' k') : c ∈ queue k' ∨ k' = k ∧ c = next := by
    by_cases heq : k' = k
    · subst heq
      rw [hk, List.mem_append, List.mem_singleton] at hc
      exact hc.imp_right fun hc => ⟨rfl, hc⟩
    · rw [hother k' heq] at hc
      exact .inl hc
  have hkept {k' : κ} {c : Nat} (hc : c ∈ queue k') : c ∈ queue' k' := by
    by_cases heq : k' = k
    · subst heq
      rw [hk]
      exact List.mem_append_left _ hc
    · rwa [hother k' heq]
  refine ⟨?_, ?_, ?_, ?_, ?_, h.called_nodup, ?_⟩
  · intro k' c hc
    rcases hmem hc with hc | ⟨-, rfl⟩
    · exact Nat.lt_succ_of_lt (h.waiting_lt k' c hc)
    · exact Nat.lt_succ_self _
  · intro k'
    by_cases heq : k' = k
    · subst heq
      rw [hk, List.nodup_append]
      refine ⟨h.waiting_nodup k', List.nodup_singleton _, ?_⟩
      intro c hc c' hc'
      rw [List.mem_singleton.mp hc']
      exact Nat.ne_of_lt (h.waiting_lt k' c hc)
    · rw [hother k' heq]
      exact h.waiting_nodup k'
  · intro k₁ k₂ c h₁ h₂
    rcases hmem h₁ with h₁ | ⟨rfl, rfl⟩
    · rcases hmem h₂ with h₂ | ⟨-, rfl⟩
      · exact h.waiting_disjoint k₁ k₂ c h₁ h₂
      · exact absurd (h.waiting_lt k₁ _ h₁) (Nat.lt_irrefl _)
    · rcases hmem h₂ with h₂ | ⟨rfl, -⟩
      · exact absurd (h.waiting_lt k₂ _ h₂) (Nat.lt_irrefl _)
      · rfl
  · intro k' c hc hcalled
    rcases hmem hc with hc | ⟨-, rfl⟩
    · exact h.waiting_not_called k' c hc hcalled
    · exact absurd (h.called_lt _ hcalled) (Nat.lt_irrefl _)
  · exact fun c hc => Nat.lt_succ_of_lt (h.called_lt c hc)
  · intro c hc
    rcases Nat.lt_succ_iff_lt_or_eq.mp hc with hc | rfl
    · exact (h.waits_or_called c hc).imp_right fun ⟨k', hc⟩ => ⟨k', hkept hc⟩
    · exact .inr ⟨k, by simp [hk]⟩

/-- The tickets at the front of a queue are called. -/
theorem call (h : Tickets queue called next) {k : κ} {front : List Nat}
    (hk : queue k = front ++ queue' k) (hother : ∀ k', k' ≠ k → queue' k' = queue k') :
    Tickets queue' (called ++ front) next := by
  have hnodup := h.waiting_nodup k
  rw [hk, List.nodup_append] at hnodup
  have hfront {c : Nat} (hc : c ∈ front) : c ∈ queue k := by
    rw [hk]
    exact List.mem_append_left _ hc
  have hold {k' : κ} {c : Nat} (hc : c ∈ queue' k') : c ∈ queue k' := by
    by_cases heq : k' = k
    · subst heq
      rw [hk]
      exact List.mem_append_right _ hc
    · rwa [← hother k' heq]
  refine ⟨?_, ?_, ?_, ?_, ?_, ?_, ?_⟩
  · exact fun k' c hc => h.waiting_lt k' c (hold hc)
  · intro k'
    by_cases heq : k' = k
    · subst heq
      exact hnodup.2.1
    · rw [hother k' heq]
      exact h.waiting_nodup k'
  · exact fun k₁ k₂ c h₁ h₂ => h.waiting_disjoint k₁ k₂ c (hold h₁) (hold h₂)
  · intro k' c hc hcalled
    rcases List.mem_append.mp hcalled with hcalled | hcalled
    · exact h.waiting_not_called k' c (hold hc) hcalled
    · obtain rfl := h.waiting_disjoint k' k c (hold hc) (hfront hcalled)
      exact hnodup.2.2 c hcalled c hc rfl
  · intro c hc
    rcases List.mem_append.mp hc with hc | hc
    · exact h.called_lt c hc
    · exact h.waiting_lt k c (hfront hc)
  · rw [List.nodup_append]
    refine ⟨h.called_nodup, hnodup.1, ?_⟩
    rintro c hc c' hc' rfl
    exact h.waiting_not_called k c (hfront hc') hc
  · intro c hc
    rcases h.waits_or_called c hc with hc | ⟨k', hc⟩
    · exact .inl (List.mem_append_left _ hc)
    · by_cases heq : k' = k
      · subst heq
        rw [hk, List.mem_append] at hc
        exact hc.imp (List.mem_append_right _) fun hc => ⟨k', hc⟩
      · exact .inr ⟨k', by rwa [hother k' heq]⟩

end Tickets

end MySQLight.Data
