-- SUMMARY: The tokens that lie between two places of a feed.
import Mathlib.Tactic.Common
import MonkeyLanguage.Proofs.Reading.Delivery

/-!
# Tokens passed

A rule starts with the first token of what it reads at the front of the feed, and ends with
the last one there. `feed.Passes tokens rest` says that these tokens are the ones between
the two fronts. There is always one, and none of them is made up behind the end.
-/

namespace MonkeyLanguage

namespace Feed

/-- The tokens from the front of `feed` to the front of `rest`, both included. -/
inductive Passes : Feed → List Token → Feed → Prop where
  | one {feed : Feed} : feed.ahead ≠ [] → feed.Passes [feed.current] feed
  | cons {feed rest : Feed} {ts : List Token} :
      feed.ahead ≠ [] → feed.advance.Passes ts rest → feed.Passes (feed.current :: ts) rest

theorem current_eq_of_ahead {feed : Feed} {token : Token} {ts : List Token}
    (h : feed.ahead = token :: ts) : feed.current = token := by
  simp [current, h]

theorem length_advance_lt {feed : Feed} (h : feed.ahead ≠ []) :
    feed.advance.ahead.length < feed.ahead.length := by
  rw [ahead_eq_cons h, List.length_cons]
  exact Nat.lt_succ_self _

variable {feed mid rest : Feed} {ts us : List Token} {token : Token}

theorem Passes.ne_nil (h : feed.Passes ts rest) : ts ≠ [] := by
  cases h <;> simp

theorem Passes.front (h : feed.Passes ts rest) : rest.ahead ≠ [] := by
  induction h with
  | one hahead => exact hahead
  | cons _ _ ih => exact ih

theorem Passes.finish (h : feed.Passes ts rest) : rest.finish = feed.finish := by
  induction h with
  | one => rfl
  | cons _ _ ih => exact ih

theorem Passes.split (h : feed.Passes ts rest) : feed.ahead = ts ++ rest.advance.ahead := by
  induction h with
  | one hahead => exact ahead_eq_cons hahead
  | cons hahead _ ih => rw [ahead_eq_cons hahead, ih, List.cons_append]

theorem Passes.length_le (h : feed.Passes ts rest) : rest.ahead.length ≤ feed.ahead.length := by
  induction h with
  | one => exact Nat.le_refl _
  | cons hahead _ ih =>
      rw [ahead_eq_cons hahead, List.length_cons]
      exact Nat.le_succ_of_le ih

/-! ## Joining -/

theorem Passes.trans (h : feed.Passes ts mid) (hnext : mid.advance.Passes us rest) :
    feed.Passes (ts ++ us) rest := by
  induction h with
  | one hahead => exact .cons hahead hnext
  | cons hahead _ ih => exact .cons hahead (ih hnext)

theorem Passes.ofKind {kind : Kind} (h : feed.current.kind = kind) (hkind : kind ≠ .endOfInput) :
    feed.Passes [feed.current] feed :=
  .one (ahead_ne_nil (h ▸ hkind))

theorem Passes.consKind {kind : Kind} (h : feed.current.kind = kind) (hkind : kind ≠ .endOfInput)
    (hnext : feed.advance.Passes ts rest) : feed.Passes (feed.current :: ts) rest :=
  .cons (ahead_ne_nil (h ▸ hkind)) hnext

theorem Passes.snocKind {kind : Kind} (h : feed.Passes ts mid)
    (hpeek : mid.advance.current.kind = kind) (hkind : kind ≠ .endOfInput) :
    feed.Passes (ts ++ [mid.advance.current]) mid.advance :=
  h.trans (.ofKind hpeek hkind)

/-! ## Taking apart -/

theorem passes_singleton : feed.Passes [token] rest ↔
    feed.ahead ≠ [] ∧ feed.current = token ∧ rest = feed := by
  constructor
  · intro h
    cases h with
    | one hahead => exact ⟨hahead, rfl, rfl⟩
    | cons _ hnext => exact absurd rfl hnext.ne_nil
  · rintro ⟨hahead, rfl, rfl⟩
    exact .one hahead

theorem passes_cons (hts : ts ≠ []) : feed.Passes (token :: ts) rest ↔
    feed.ahead ≠ [] ∧ feed.current = token ∧ feed.advance.Passes ts rest := by
  constructor
  · intro h
    cases h with
    | one => exact absurd rfl hts
    | cons hahead hnext => exact ⟨hahead, rfl, hnext⟩
  · rintro ⟨hahead, rfl, hnext⟩
    exact .cons hahead hnext

theorem passes_append (hts : ts ≠ []) (hus : us ≠ []) : feed.Passes (ts ++ us) rest ↔
    ∃ mid, feed.Passes ts mid ∧ mid.advance.Passes us rest := by
  constructor
  · intro h
    induction ts generalizing feed with
    | nil => exact absurd rfl hts
    | cons token ts ih =>
        rw [List.cons_append, passes_cons (by simp [hus])] at h
        obtain ⟨hahead, rfl, hnext⟩ := h
        cases ts with
        | nil => exact ⟨feed, .one hahead, hnext⟩
        | cons second ts =>
            obtain ⟨mid, hmid, hrest⟩ := ih (by simp) hnext
            exact ⟨mid, .cons hahead hmid, hrest⟩
  · rintro ⟨mid, hmid, hrest⟩
    exact hmid.trans hrest

/-- The tokens behind a first part, which may be none, seen from the last token of that part. -/
theorem Passes.split_at (h : feed.Passes (ts ++ us) rest) (hts : ts ≠ []) :
    ∃ mid, feed.Passes ts mid ∧ mid.Passes (mid.current :: us) rest := by
  by_cases hus : us = []
  · subst hus
    rw [List.append_nil] at h
    exact ⟨rest, h, .one h.front⟩
  · obtain ⟨mid, hmid, hrest⟩ := (passes_append hts hus).1 h
    exact ⟨mid, hmid, .cons hmid.front hrest⟩

theorem passes_snoc (hts : ts ≠ []) : feed.Passes (ts ++ [token]) rest ↔
    ∃ mid, feed.Passes ts mid ∧ mid.advance.ahead ≠ [] ∧ mid.advance.current = token ∧
      rest = mid.advance := by
  rw [passes_append hts (by simp)]
  simp only [passes_singleton]

/-- What is passed ends with the token at the front of the rest. -/
theorem passes_concat : feed.Passes (ts ++ [token]) rest ↔
    feed.ahead = ts ++ rest.ahead ∧ rest.finish = feed.finish ∧ rest.ahead ≠ [] ∧
      rest.current = token := by
  induction ts generalizing feed with
  | nil =>
      rw [List.nil_append, passes_singleton]
      constructor
      · rintro ⟨hahead, rfl, rfl⟩
        exact ⟨rfl, rfl, hahead, rfl⟩
      · rintro ⟨hahead, hfinish, hne, rfl⟩
        obtain rfl : rest = feed := by
          cases feed
          cases rest
          simp_all
        exact ⟨hne, rfl, rfl⟩
  | cons front ts ih =>
      rw [List.cons_append, passes_cons (by simp), ih]
      constructor
      · rintro ⟨hahead, rfl, hsplit, hlast⟩
        exact ⟨by rw [ahead_eq_cons hahead, hsplit, List.cons_append], hlast⟩
      · rintro ⟨hsplit, hlast⟩
        have hahead : feed.ahead ≠ [] := by simp [hsplit]
        rw [ahead_eq_cons hahead, List.cons_append] at hsplit
        obtain ⟨hcurrent, hrest⟩ := List.cons.inj hsplit
        exact ⟨hahead, hcurrent, hrest, hlast⟩

/-- Tokens that lie ahead are passed. -/
theorem Passes.of_split (hts : ts ≠ []) (h : feed.ahead = ts ++ us) :
    ∃ mid, feed.Passes ts mid ∧ mid.advance.ahead = us := by
  induction ts generalizing feed with
  | nil => exact absurd rfl hts
  | cons token ts ih =>
      have hahead : feed.ahead ≠ [] := by simp [h]
      obtain ⟨rfl, hrest⟩ : feed.current = token ∧ feed.advance.ahead = ts ++ us := by
        rw [ahead_eq_cons hahead, List.cons_append] at h
        exact List.cons.inj h
      by_cases hnil : ts = []
      · subst hnil
        exact ⟨feed, .one hahead, hrest⟩
      · obtain ⟨mid, hmid, hlast⟩ := ih hnil hrest
        exact ⟨mid, .cons hahead hmid, hlast⟩

/-! ## Semicolons -/

/-- The feed with its front token put back. -/
theorem skipSemicolons_of_not {feed : Feed} (h : feed.advance.current.kind ≠ .semicolon) :
    feed.skipSemicolons = feed := by
  obtain ⟨ahead, finish⟩ := feed
  match ahead with
  | [] => rfl
  | [front] => rfl
  | front :: next :: rest =>
      have hnext : next.kind ≠ .semicolon := h
      simp [skipSemicolons, dropSemicolons, hnext]

theorem skipSemicolons_of_semicolon {feed : Feed} (h : feed.advance.current.kind = .semicolon) :
    feed.skipSemicolons = feed.advance.skipSemicolons := by
  obtain ⟨ahead, finish⟩ := feed
  match ahead with
  | [] => simp [advance, current, Token.endAt] at h
  | [front] => simp [advance, current, Token.endAt] at h
  | front :: next :: rest =>
      have hnext : next.kind = .semicolon := h
      simp [skipSemicolons, dropSemicolons, advance, hnext]

/-- What skipping semicolons passes. -/
theorem Passes.skipSemicolons (h : feed.Passes ts mid) :
    ∃ semicolons, (∀ token ∈ semicolons, token.kind = .semicolon) ∧
      feed.Passes (ts ++ semicolons) mid.skipSemicolons ∧
      (semicolons = [] → mid.skipSemicolons = mid) := by
  induction hlength : mid.ahead.length generalizing mid ts with
  | zero => exact absurd (List.length_eq_zero_iff.1 hlength) h.front
  | succ length ih =>
      by_cases hnext : mid.advance.current.kind = .semicolon
      · rw [skipSemicolons_of_semicolon hnext]
        obtain ⟨semicolons, hall, hpass, -⟩ :=
          ih (h.snocKind hnext (by decide)) (by simp [advance, hlength])
        exact ⟨mid.advance.current :: semicolons, by simpa [hnext] using hall, by simpa using hpass,
          by simp⟩
      · exact ⟨[], by simp, by simpa [skipSemicolons_of_not hnext] using h,
          fun _ => skipSemicolons_of_not hnext⟩

/-- Skipping semicolons stops right behind all that are there. -/
theorem Passes.skipSemicolons_eq (h : mid.advance.Passes us rest)
    (hall : ∀ token ∈ us, token.kind = .semicolon) (hstop : rest.advance.current.kind ≠ .semicolon) :
    mid.skipSemicolons = rest := by
  induction us generalizing mid with
  | nil => exact absurd rfl h.ne_nil
  | cons token us ih =>
      by_cases hus : us = []
      · subst hus
        obtain ⟨-, rfl, rfl⟩ := passes_singleton.1 h
        rw [skipSemicolons_of_semicolon (hall _ List.mem_cons_self), skipSemicolons_of_not hstop]
      · obtain ⟨-, rfl, hnext⟩ := (passes_cons hus).1 h
        rw [skipSemicolons_of_semicolon (hall _ List.mem_cons_self)]
        exact ih hnext fun token hmem => hall token (List.mem_cons_of_mem _ hmem)

end Feed

end MonkeyLanguage
