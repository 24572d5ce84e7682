import Mathlib.Data.List.Basic

/-!
# Chains of relays

A relay takes a request off the wire, changes it in its own way and sends it on; it takes the answer
off the wire, changes it and replies. Relays that stand one behind the other pass a request through
as many encodings as there are relays.

- `Surface`: how requests and answers cross the wire; `Surface.Faithful`: what survives of them.
- `serve`, `chain`: one relay, and relays one behind the other.
- `chain_eq`: over a faithful surface, a chain is one exchange with the server, with the changes of
  its relays put together.
-/

namespace Relay

/-- How requests and answers cross the wire: `send` and `receive` on the side of the caller, `accept`
and `reply` on the other. -/
structure Surface (W ρ τ : Type*) where
  accept : W → Option ρ
  send : ρ → W
  receive : ρ → W → Option τ
  reply : ρ → τ → W

/-- What a relay makes of a request on its way, and of the answer on its way back. -/
structure Hop (ρ τ : Type*) where
  forward : ρ → ρ
  back : ρ → τ → τ

section

variable {W ρ τ : Type*} (S : Surface W ρ τ)

/-- A relay before `next`. -/
def serve (h : Hop ρ τ) (next : W → Option W) (w : W) : Option W :=
  (S.accept w).bind fun r => (next (S.send (h.forward r))).bind fun v =>
    (S.receive (h.forward r) v).map fun t => S.reply r (h.back r t)

/-- Relays one behind the other before a server. -/
def chain (hs : List (Hop ρ τ)) (server : W → Option W) : W → Option W := hs.foldr (serve S) server

/-- What survives an encoding: of a request `canon`, of an answer `settle`. Requests that were
accepted have `P`, answers that were received have `Q`, and what is on the wire is well formed. -/
structure Surface.Faithful (wf : W → Prop) (P : ρ → Prop) (Q : τ → Prop) (canon : ρ → ρ)
    (settle : τ → τ) : Prop where
  accepted : ∀ {w r}, wf w → S.accept w = some r → P r
  received : ∀ {r v t}, wf v → S.receive r v = some t → Q t
  wf_send : ∀ {r}, P r → wf (S.send r)
  accept_send : ∀ {r}, P r → S.accept (S.send r) = some (canon r)
  receive_reply : ∀ {r r' t}, P r → Q t → S.receive r' (S.reply (canon r) t) = some (settle t)
  settle_keeps : ∀ t, Q t → Q (settle t)

/-- The relay keeps requests and answers good. -/
def Hop.Keeps (h : Hop ρ τ) (P : ρ → Prop) (Q : τ → Prop) : Prop :=
  (∀ r, P r → P (h.forward r)) ∧ ∀ r t, Q t → Q (h.back r t)

end

section

variable {ρ τ : Type*} (canon : ρ → ρ) (settle : τ → τ)

/-- What the last relay sends. -/
def forwards : List (Hop ρ τ) → ρ → ρ
  | [], r => r
  | [h], r => h.forward r
  | h :: hs, r => forwards hs (canon (h.forward r))

/-- What the first relay replies to an answer of the server. -/
def backs : List (Hop ρ τ) → ρ → τ → τ
  | [], _, t => t
  | [h], r, t => h.back r t
  | h :: hs, r, t => h.back r (settle (backs hs (canon (h.forward r)) t))

end

variable {W ρ τ : Type*} {S : Surface W ρ τ} {wf : W → Prop} {P : ρ → Prop} {Q : τ → Prop}
  {canon : ρ → ρ} {settle : τ → τ}

theorem backs_keeps (hsettle : ∀ t, Q t → Q (settle t)) {hs : List (Hop ρ τ)}
    (hkeeps : ∀ h ∈ hs, h.Keeps P Q) {r : ρ} {t : τ} (ht : Q t) : Q (backs canon settle hs r t) := by
  induction hs generalizing r with
  | nil => exact ht
  | cons h hs ih =>
    have hback := (hkeeps h List.mem_cons_self).2
    cases hs with
    | nil => exact hback r t ht
    | cons h' hs =>
      exact hback r _ (hsettle _ (ih fun h hh => hkeeps h (List.mem_cons_of_mem _ hh)))

/-- A chain is one exchange with the server. -/
theorem chain_eq (hS : S.Faithful wf P Q canon settle) {server : W → Option W}
    (hserver : ∀ w v, server w = some v → wf v) {hs : List (Hop ρ τ)} (hne : hs ≠ [])
    (hkeeps : ∀ h ∈ hs, h.Keeps P Q) {w : W} (hw : wf w) :
    chain S hs server w = (S.accept w).bind fun r =>
      (server (S.send (forwards canon hs r))).bind fun v =>
        (S.receive (forwards canon hs r) v).map fun t => S.reply r (backs canon settle hs r t) := by
  induction hs generalizing w with
  | nil => exact absurd rfl hne
  | cons h hs ih =>
    cases hs with
    | nil => rfl
    | cons h' hs =>
      have hkeeps' : ∀ h ∈ h' :: hs, h.Keeps P Q := fun h hh =>
        hkeeps h (List.mem_cons_of_mem _ hh)
      change serve S h (chain S (h' :: hs) server) w = _
      rw [serve]
      refine Option.bind_congr fun r hr => ?_
      have hforward := (hkeeps h List.mem_cons_self).1 r (hS.accepted hw hr)
      -- the inner relays are one exchange, and the request they are sent is accepted
      rw [ih (List.cons_ne_nil _ _) hkeeps' (hS.wf_send hforward), hS.accept_send hforward,
        Option.bind_some, Option.bind_assoc]
      refine Option.bind_congr fun v hv => ?_
      cases ht : S.receive (forwards canon (h' :: hs) (canon (h.forward r))) v with
      | none => simp only [forwards, ht, Option.map_none, Option.bind_none]
      | some t =>
        have hback : Q (backs canon settle (h' :: hs) (canon (h.forward r)) t) :=
          backs_keeps hS.settle_keeps hkeeps' (hS.received (hserver _ _ hv) ht)
        simp only [forwards, ht, Option.map_some, Option.bind_some,
          hS.receive_reply hforward hback, backs]

end Relay
