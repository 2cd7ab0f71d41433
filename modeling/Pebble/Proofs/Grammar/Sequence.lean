import Pebble.Proofs.Grammar.Progress

/-!
Sequences: a rule that goes on after another one runs where that one has left the session, wherever
the session is, and also if it is before its tokens or past them.
-/

namespace Pebble

lemma Cursor.advance_advance {α : Type} (c : Cursor α) (m n : Nat) :
    (c.advance m).advance n = c.advance (m + n) := by
  have hposition : c.position + m + n = c.position + (m + n : Nat) := by omega
  exact congrArg (Cursor.mk c.items) hposition

lemma Cursor.peek?_zero {α : Type} (c : Cursor α) : c.peek? 0 = c.view.head? := by
  rw [peek?, Int.add_zero, view]

namespace Session

variable {α β : Type} {s : Session} {rest later : List Token}

lemma leaving_view (s : Session) : s.leaving s.cursor.view = s := by
  rw [leaving, Nat.sub_self, Cursor.advance, Int.natCast_zero, Int.add_zero]

lemma view_leaving (h : rest <:+ s.cursor.view) : (s.leaving rest).cursor.view = rest := by
  by_cases hposition : s.cursor.position < 0
  · have hview : s.cursor.view = [] := if_pos hposition
    rw [hview, List.suffix_nil] at h
    rw [h, ← hview, leaving_view]
  · obtain ⟨n, hn⟩ := Int.eq_ofNat_of_zero_le (not_lt.1 hposition)
    have hview : s.cursor.view = s.cursor.items.drop n := by
      rw [Cursor.view, hn, Cursor.viewAt_natCast]
    have hstep : s.cursor.position + (s.cursor.view.length - rest.length : Nat) =
        (n + (s.cursor.view.length - rest.length) : Nat) := by omega
    calc (s.leaving rest).cursor.view
        = s.cursor.viewAt (s.cursor.position + (s.cursor.view.length - rest.length : Nat)) := rfl
      _ = s.cursor.view.drop (s.cursor.view.length - rest.length) := by
        rw [hstep, Cursor.viewAt_natCast, ← List.drop_drop, ← hview]
      _ = rest := (List.suffix_iff_eq_drop.1 h).symm

lemma leaving_leaving (h : rest <:+ s.cursor.view) (h' : later <:+ rest) :
    (s.leaving rest).leaving later = s.leaving later := by
  have hrest := h.length_le
  have hlater := h'.length_le
  have hsteps : s.cursor.view.length - rest.length + (rest.length - later.length) =
      s.cursor.view.length - later.length := by omega
  rw [leaving, view_leaving h, leaving, Cursor.advance_advance, hsteps, leaving]

lemma run_eq_of_ok {r : Rule α} {v : α} (h : r s.cursor.view = .ok v rest) :
    s.run r = (.ok v, s.leaving rest) := by
  rw [run, h]

lemma run_eq_of_error {r : Rule α} {stop : Stop} (h : r s.cursor.view = .error stop rest) :
    s.run r = (.error ((s.leaving rest).failure stop), s.leaving rest) := by
  rw [run, h]

section

variable (s) (r : Rule α)

@[simp] lemma run_side : (s.run r).2.side = s.side := by
  rw [run]
  split <;> rfl

@[simp] lemma run_depth : (s.run r).2.depth = s.depth := by
  rw [run]
  split <;> rfl

/-- After a run, an end of what was to be seen is to be seen. -/
lemma view_run [Rule.Orderly r] : (s.run r).2.cursor.view <:+ s.cursor.view := by
  rcases hr : r s.cursor.view with ⟨v, rest⟩ | ⟨stop, rest⟩
  · have hrest := Rule.suffix_of_ok hr
    rwa [run_eq_of_ok hr, view_leaving hrest]
  · have hrest := Rule.suffix_of_error hr
    rwa [run_eq_of_error hr, view_leaving hrest]

lemma run_pure (v : α) : s.run (pure v) = (.ok v, s) := by
  rw [run_eq_of_ok (Rule.pure_apply v _), leaving_view]

lemma run_bind [Rule.Orderly r] (f : α → Rule β) [∀ v, Rule.Orderly (f v)] :
    s.run (r >>= f) =
      match s.run r with
      | (.ok v, s') => s'.run (f v)
      | (.error e, s') => (.error e, s') := by
  rcases hr : r s.cursor.view with ⟨v, rest⟩ | ⟨stop, rest⟩
  · have hrest := Rule.suffix_of_ok hr
    have hview := view_leaving hrest
    rw [run_eq_of_ok hr]
    rcases hf : f v rest with ⟨w, later⟩ | ⟨stop, later⟩
    · -- What both rules leave is what the second leaves when it starts after the first.
      rw [run_eq_of_ok ((Rule.bind_ok hr).trans hf),
        ← leaving_leaving hrest (Rule.suffix_of_ok hf)]
      exact (run_eq_of_ok (hview.symm ▸ hf)).symm
    · rw [run_eq_of_error ((Rule.bind_ok hr).trans hf),
        ← leaving_leaving hrest (Rule.suffix_of_error hf)]
      exact (run_eq_of_error (hview.symm ▸ hf)).symm
  · rw [run_eq_of_error (Rule.bind_error hr), run_eq_of_error hr]

lemma run_map [Rule.Orderly r] (f : α → β) :
    s.run (f <$> r) = ((s.run r).1.map f, (s.run r).2) := by
  rw [map_eq_pure_bind, run_bind]
  rcases s.run r with ⟨e | v, s'⟩
  · rfl
  · exact run_pure s' (f v)

end

def next? (s : Session) (patterns : List Pattern) : Option Token :=
  (s.cursor.peek? 0).filter fun token => patterns.any (·.accepts token)

/-- A token that fits is the first that is to be seen, and `skip` moves past it. -/
lemma skip_of_next? {patterns : List Pattern} {t : Token} (h : s.next? patterns = some t) :
    patterns.any (·.accepts t) ∧ ∃ ts, s.cursor.view = t :: ts ∧ s.skip = s.leaving ts := by
  rw [next?, Cursor.peek?_zero, Option.filter_eq_some_iff, List.head?_eq_some_iff] at h
  obtain ⟨⟨ts, hview⟩, hfits⟩ := h
  refine ⟨hfits, ts, hview, ?_⟩
  rw [leaving, hview, List.length_cons, Nat.add_sub_cancel_left, skip]

lemma length_view_skip {patterns : List Pattern} {t : Token} (h : s.next? patterns = some t) :
    s.skip.cursor.view.length < s.cursor.view.length := by
  obtain ⟨-, ts, hview, hskip⟩ := skip_of_next? h
  have hts : ts <:+ s.cursor.view := hview ▸ List.suffix_cons t ts
  rw [hskip, view_leaving hts, hview]
  exact Nat.lt_succ_self ts.length

lemma run_accept? (s : Session) (patterns : List Pattern) :
    s.run (Rule.accept? patterns) =
      match s.next? patterns with
      | none => (.ok none, s)
      | some token => (.ok (some token), s.skip) := by
  cases hnext : s.next? patterns with
  | some t =>
    obtain ⟨hfits, ts, hview, hskip⟩ := skip_of_next? hnext
    have haccept : Rule.accept? patterns s.cursor.view = .ok (some t) ts := by
      rw [hview, Rule.accept?_cons, if_pos hfits]
    rw [run_eq_of_ok haccept, hskip]
  | none =>
    have haccept : Rule.accept? patterns s.cursor.view = .ok none s.cursor.view := by
      rw [next?, Cursor.peek?_zero] at hnext
      rcases hview : s.cursor.view with _ | ⟨t, ts⟩
      · rfl
      · rw [hview, List.head?_cons, Option.filter_eq_none_iff] at hnext
        rw [Rule.accept?_cons, if_neg (hnext t rfl)]
    rw [run_eq_of_ok haccept, leaving_view]

/-- A rule that goes on in two ways behind a token that may fit. -/
lemma run_accept?_bind (s : Session) (patterns : List Pattern) (f : Option Token → Rule β)
    [hnone : Rule.Orderly (f none)] [hsome : ∀ t, Rule.Orderly (f (some t))] :
    s.run (Rule.accept? patterns >>= f) =
      match s.next? patterns with
      | none => s.run (f none)
      | some token => s.skip.run (f (some token)) := by
  have horderly : ∀ found, Rule.Orderly (f found)
    | none => hnone
    | some t => hsome t
  rw [run_bind, run_accept?]
  cases s.next? patterns <;> rfl

end Session

end Pebble
