/-
Searching a state that grows under the search.

A guard may append transitions to the very state whose guards are being asked. Then the search does
not walk along the list that it began with, and neither the length of that list nor what is in it
tells who will be asked. But a transition never leaves its place. So the list that is there in the
end tells it all (`AsksExactly`): whoever was asked stands in that list, in the place where it was
asked, and before the end of the search nobody was left out.
-/
import SymbolMachine.Proofs.Machine.Calls

set_option autoImplicit false

namespace SymbolMachine

namespace Host

variable {ω γ α ξ : Type} {x : ξ} {ts : List (Transition γ α)} {calls : List (Call γ α ξ)}
  {r : Except Stop (Option (Nat × Transition γ α))} {fuel : Nat}

/-- What was called by a search that ended in a certain way, if these are the transitions in the
end. A search that found something asked the guards up to there and had only refusals before, one
that found nothing asked them all. One that was stopped was stopped by the last guard that it asked,
or had refusals only and no fuel left. -/
def AsksExactly (x : ξ) (fuel : Nat) (ts : List (Transition γ α)) (calls : List (Call γ α ξ)) :
    Except Stop (Option (Nat × Transition γ α)) → Prop
  | .ok (some (i, t)) =>
      ts[i]? = some t ∧ calls = refusals x (ts.take i) ++ [.asked t.guard x (.ok true)]
  | .ok none => calls = refusals x ts
  | .error e =>
      (∃ i t, ts[i]? = some t ∧
        calls = refusals x (ts.take i) ++ [.asked t.guard x (.error e)]) ∨
      e = .stalled ∧ fuel ≤ ts.length ∧ calls = refusals x (ts.take fuel)

/-- A refusal is an answer. -/
theorem not_mem_refusals {g : γ} {answer : Except Stop Bool} (h : answer ≠ .ok false) :
    .asked g x answer ∉ refusals x ts := by
  intro hmem
  obtain ⟨t, -, heq⟩ := List.mem_map.mp hmem
  cases heq
  exact h rfl

theorem Inquiry.asksExactly (inquiry : Inquiry x 0 ts calls r)
    (hstall : r = .error .stalled → (∃ call ∈ calls, call.Stalls) ∨ calls.length = fuel) :
    AsksExactly x fuel ts calls r := by
  have hcalls := inquiry.calls_eq
  have hlength := inquiry.length_le
  rcases r with e | _ | ⟨i, t⟩
  · refine hcalls.imp_right ?_
    rintro ⟨rfl, hrefusals⟩
    -- Guards that refuse do not stall, so it was the fuel.
    have hfuel : calls.length = fuel := by
      refine (hstall rfl).resolve_left ?_
      rintro ⟨call, hcall, hstalls⟩
      rw [hrefusals] at hcall
      obtain ⟨t, -, rfl⟩ := List.mem_map.mp hcall
      cases hstalls
    exact ⟨rfl, hfuel ▸ hlength, hfuel ▸ hrefusals⟩
  · exact hcalls
  · obtain ⟨k, hk, ht, heq⟩ := hcalls
    obtain rfl : i = k := by rw [hk, Nat.zero_add]
    exact ⟨ht, heq⟩

/-- A guard that is stopped ends the search, and is the last that it asks. -/
theorem AsksExactly.of_stopped (h : AsksExactly x fuel ts calls r) {g : γ} {e : Stop}
    (hmem : .asked g x (.error e) ∈ calls) :
    r = .error e ∧ ∃ earlier, calls = earlier ++ [.asked g x (.error e)] := by
  have hrefusals : ∀ {us : List (Transition γ α)}, .asked g x (.error e) ∉ refusals x us :=
    not_mem_refusals nofun
  rcases r with e' | _ | ⟨i, t⟩
  · rcases h with ⟨i, t, -, rfl⟩ | ⟨-, -, rfl⟩
    · have hlast := (List.mem_append.mp hmem).resolve_left hrefusals
      cases List.mem_singleton.mp hlast
      exact ⟨rfl, _, rfl⟩
    · exact absurd hmem hrefusals
  · exact absurd (h ▸ hmem) hrefusals
  · obtain ⟨-, rfl⟩ := h
    have hlast := (List.mem_append.mp hmem).resolve_left hrefusals
    cases List.mem_singleton.mp hlast

/-- The calls of a search, where guards only append. -/
theorem exists_asksExactly {transitions : ω → List (Transition γ α)}
    {test : γ → ξ → Effect ω Bool}
    (hgrow : ∀ v, ∀ t ∈ transitions v, transitions v <+: transitions (test t.guard x v).2)
    (fuel : Nat) (w : ω) :
    let found := firstMatch transitions test x fuel 0 w
    ∃ calls : List (Call γ α ξ),
      firstMatch (fun v => transitions v.1) (tracedTest test) x fuel 0 (w, []) =
        (found.1, (found.2, calls)) ∧
      transitions w <+: transitions found.2 ∧
      AsksExactly x fuel (transitions found.2) calls found.1 := by
  intro found
  obtain ⟨calls, r, w', ⟨hfound, htraced⟩, -, hprefix, inquiry, hstall⟩ :=
    exists_inquiry_of_growing (P := fun _ => True) (fun v _ t ht => ⟨trivial, hgrow v t ht⟩) fuel 0
      (w := w) trivial
  have heq : found = (r, w') := hfound
  rw [heq]
  exact ⟨calls, htraced [], hprefix, inquiry.asksExactly hstall⟩

/-- **A search is exact even when guards grow the state.** Guards may do anything, as long as what
they do to the transitions is to append. For any state, symbol and fuel, the search with a diary
answers what the search answers, and its calls are told by the transitions in the end: if it answers
a place and a transition, the transition is at that place, and the guards up to it were asked once
each and in order, of which only the last one accepted. If it answers nothing, all transitions were
asked so, also those that were appended meanwhile, and all refused. A guard that raises is the last
one that is asked, and what it raises is what the search raises. -/
theorem firstMatch_exact {transitions : ω → List (Transition γ α)} {test : γ → ξ → Effect ω Bool}
    (hgrow : ∀ v, ∀ t ∈ transitions v, transitions v <+: transitions (test t.guard x v).2)
    (fuel : Nat) (w : ω) :
    let found := firstMatch transitions test x fuel 0 w
    ∃ calls : List (Call γ α ξ),
      firstMatch (fun v => transitions v.1) (tracedTest test) x fuel 0 (w, []) =
        (found.1, (found.2, calls)) ∧
      transitions w <+: transitions found.2 ∧
      AsksExactly x fuel (transitions found.2) calls found.1 ∧
      ∀ g e, .asked g x (.error e) ∈ calls →
        found.1 = .error e ∧ ∃ earlier, calls = earlier ++ [.asked g x (.error e)] := by
  intro found
  obtain ⟨calls, htraced, hprefix, hexact⟩ := exists_asksExactly hgrow fuel w
  exact ⟨calls, htraced, hprefix, hexact, fun _ _ hmem => hexact.of_stopped hmem⟩

/-- A guard that wants a number accepts only that. One without a number refuses, and appends a
transition whose guard wants what it was asked about. -/
def learn : Option Nat → Nat → Effect (List (Transition (Option Nat) Unit)) Bool
  | some n, x => pure (n == x)
  | none, x => do
    modify (· ++ [⟨.number 0, some x, none⟩])
    pure false

/-- The transition that is found was not there when the search began. -/
theorem learn_firstMatch_exact :
    let start : List (Transition (Option Nat) Unit) :=
      [⟨.number 0, none, none⟩, ⟨.number 0, some 7, none⟩]
    let final := start ++ [⟨.number 0, some 5, none⟩]
    firstMatch id learn 5 4 0 start = (.ok (some (2, ⟨.number 0, some 5, none⟩)), final) ∧
      AsksExactly 5 4 final
        [.asked none 5 (.ok false), .asked (some 7) 5 (.ok false), .asked (some 5) 5 (.ok true)]
        (.ok (some (2, ⟨.number 0, some 5, none⟩))) := by
  intro start final
  have hgrow : ∀ v, ∀ t ∈ id v, id v <+: id (learn t.guard 5 v).2 := by
    intro v t _
    cases t.guard with
    | some n => exact List.prefix_refl v
    | none => exact List.prefix_append v _
  obtain ⟨calls, htraced, -, hexact, -⟩ := firstMatch_exact hgrow 4 start
  obtain rfl : _ = calls := congrArg (fun result => result.2.2) htraced
  exact ⟨rfl, hexact⟩

end Host

end SymbolMachine
