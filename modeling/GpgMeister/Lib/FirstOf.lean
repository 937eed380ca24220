/-
# The first of several attempts that works

A loop over alternatives that goes on after an exception it catches, and ends
with a return or with an exception that it does not catch. It returns what the
first alternative that works gives (`findsFirst_iff`) exactly if every
alternative before that one raises what the loop catches.
-/
import GpgMeister.Lib.Program

namespace GpgMeister
namespace Program

variable {σ ε α β : Type}

/-- `for b in bs: try: return x(b) except …: last_error = e`, and what comes
after the loop. -/
def firstOf (x : β → Program σ ε α) (caught : ε → Bool) (last : Option ε → Program σ ε α) :
    List β → Option ε → Program σ ε α
  | [], lastError => last lastError
  | b :: bs, _ => (x b).catching fun e => if caught e then firstOf x caught last bs (some e) else raise e

/-- The alternatives are tried one after the other, and each raises with `p`. -/
def AllRaise (x : β → Program σ ε α) (p : β → ε → Prop) : List β → σ → σ → Prop
  | [], s, s' => s' = s
  | b :: bs, s, s' => ∃ e s1, (x b).run s = .error e s1 ∧ p b e ∧ AllRaise x p bs s1 s'

/-- All of these raise, and the one after them gives this. -/
def FirstWorks (x : β → Program σ ε α) (bs : List β) (s : σ) (before : List β) (a : α) (s' : σ) : Prop :=
  ∃ b later s1, bs = before ++ b :: later ∧ AllRaise x (fun _ _ => True) before s s1 ∧ (x b).run s1 = .ok a s'

/-- The search gives what the first alternative that works gives. -/
def FindsFirst (search : Program σ ε α) (x : β → Program σ ε α) (bs : List β) (s : σ) : Prop :=
  ∀ before a s', FirstWorks x bs s before a s' → search.run s = .ok a s'

variable {x : β → Program σ ε α} {caught : ε → Bool} {last : Option ε → Program σ ε α}

theorem AllRaise.mono {p q : β → ε → Prop} : ∀ {bs : List β} {s s' : σ},
    AllRaise x p bs s s' → (∀ b ∈ bs, ∀ e, p b e → q b e) → AllRaise x q bs s s'
  | [], _, _, h, _ => h
  | b :: bs, s, s', h, hpq => by
    rw [List.forall_mem_cons] at hpq
    obtain ⟨e, s1, he, hp, h⟩ := h
    exact ⟨e, s1, he, hpq.1 e hp, h.mono hpq.2⟩

/-- The same errors are raised once more. -/
theorem AllRaise.and {p q : β → ε → Prop} : ∀ {bs : List β} {s s1 s2 : σ},
    AllRaise x p bs s s1 → AllRaise x q bs s s2 → AllRaise x (fun b e => p b e ∧ q b e) bs s s1
  | [], _, _, _, h, _ => h
  | b :: bs, s, s1, s2, h, h' => by
    obtain ⟨e, s3, he, hp, h⟩ := h
    obtain ⟨e', s4, he', hq, h'⟩ := h'
    obtain ⟨rfl, rfl⟩ : e = e' ∧ s3 = s4 := by simpa [he] using he'
    exact ⟨e, s3, he, ⟨hp, hq⟩, h.and h'⟩

/-- What all of them raise meets `p` if each of them does at its turn. -/
theorem AllRaise.iff_forall {p : β → ε → Prop} : ∀ {bs : List β} {s s' : σ}, AllRaise x (fun _ _ => True) bs s s' →
    (AllRaise x p bs s s' ↔ ∀ earlier b later s1 e s2, bs = earlier ++ b :: later →
      AllRaise x (fun _ _ => True) earlier s s1 → (x b).run s1 = .error e s2 → p b e)
  | [], _, _, h => by
    refine iff_of_true h ?_
    intro earlier b later s1 e s2 hbs
    simp at hbs
  | c :: bs, s, s', h => by
    obtain ⟨e0, s0, he0, -, h⟩ := h
    have ih := AllRaise.iff_forall (p := p) h
    constructor
    · intro hp earlier b later s1 e s2 hbs hearlier hb
      obtain ⟨e', s'', he', hpe, hp⟩ := hp
      obtain ⟨rfl, rfl⟩ : e0 = e' ∧ s0 = s'' := by simpa [he0] using he'
      cases earlier with
      | nil =>
        obtain ⟨rfl, rfl⟩ : c = b ∧ bs = later := by simpa using hbs
        obtain rfl : s1 = s := hearlier
        obtain ⟨rfl, rfl⟩ : e0 = e ∧ s0 = s2 := by simpa [he0] using hb
        exact hpe
      | cons c' earlier =>
        obtain ⟨rfl, rfl⟩ : c = c' ∧ bs = earlier ++ b :: later := by simpa using hbs
        obtain ⟨e', s'', he', -, hearlier⟩ := hearlier
        obtain ⟨rfl, rfl⟩ : e0 = e' ∧ s0 = s'' := by simpa [he0] using he'
        exact ih.mp hp earlier b later s1 e s2 rfl hearlier hb
    · intro hall
      refine ⟨e0, s0, he0, hall [] c bs s e0 s0 rfl rfl he0, ih.mpr ?_⟩
      intro earlier b later s1 e s2 hbs hearlier hb
      exact hall (c :: earlier) b later s1 e s2 (by rw [hbs]; rfl) ⟨e0, s0, he0, trivial, hearlier⟩ hb

/-- The rule of the loop: an alternative that raises what is caught keeps the
invariant, and any other end of it is an end of the loop. -/
theorem Meets.firstOf {I : σ → Prop} {Q : α → σ → Prop} {E : ε → σ → Prop}
    (hlast : ∀ lastError s, I s → (last lastError).Meets s Q E) :
    ∀ {bs : List β}, (∀ b ∈ bs, ∀ s, I s → (x b).Meets s Q fun e s' => if caught e = true then I s' else E e s') →
      ∀ (lastError : Option ε) (s : σ), I s → (firstOf x caught last bs lastError).Meets s Q E
  | [], _, lastError, s, hs => hlast lastError s hs
  | b :: bs, hx, lastError, s, hs => by
    rw [List.forall_mem_cons] at hx
    rw [Program.firstOf, meets_catching]
    refine (hx.1 s hs).mono (fun _ _ h => h) fun e s' h => ?_
    by_cases hc : caught e = true
    · rw [if_pos hc] at h ⊢
      exact Meets.firstOf hlast hx.2 (some e) s' h
    · rw [if_neg hc] at h ⊢
      exact h

/-- A loop in which one alternative works and no other ends it: it returns. -/
theorem Meets.firstOf_of_mem {I : σ → Prop} {Q : α → σ → Prop} {b : β}
    (hb : ∀ s, I s → (x b).Meets s Q fun _ _ => False) :
    ∀ {bs : List β}, (∀ b ∈ bs, ∀ s, I s → (x b).Meets s Q fun e s' => caught e = true ∧ I s') → b ∈ bs →
      ∀ (lastError : Option ε) (s : σ), I s → (Program.firstOf x caught last bs lastError).Meets s Q fun _ _ => False
  | b' :: bs, hx, hmem, lastError, s, hs => by
    rw [List.forall_mem_cons] at hx
    rw [Program.firstOf, meets_catching]
    by_cases hne : b' = b
    · subst hne
      exact (hb s hs).mono (fun _ _ h => h) fun _ _ h => h.elim
    · refine (hx.1 s hs).mono (fun _ _ h => h) ?_
      rintro e s' ⟨hc, hs'⟩
      rw [if_pos hc]
      exact Meets.firstOf_of_mem hb hx.2 ((List.mem_cons.mp hmem).resolve_left (Ne.symm hne)) (some e) s' hs'

/-- A loop that returns has caught what was raised before. -/
theorem AllRaise.of_run_firstOf_eq_ok {later : List β} {a : α} {s1 s2 : σ} : ∀ {before : List β} {s : σ}
    {lastError : Option ε}, AllRaise x (fun _ _ => True) before s s1 →
      (firstOf x caught last (before ++ later) lastError).run s = .ok a s2 →
      AllRaise x (fun _ e => caught e = true) before s s1
  | [], _, _, hraise, _ => hraise
  | b :: before, s, lastError, hraise, h => by
    obtain ⟨e, s', he, -, hraise⟩ := hraise
    rw [List.cons_append, firstOf, run_catching, he] at h
    by_cases hc : caught e = true
    · simp only [if_pos hc] at h
      exact ⟨e, s', he, hc, hraise.of_run_firstOf_eq_ok h⟩
    · simp [if_neg hc] at h

/-- After alternatives that raise what is caught, the next one decides. -/
theorem AllRaise.run_firstOf_eq_ok {b : β} {a : α} {s1 s2 : σ} (later : List β) (hb : (x b).run s1 = .ok a s2) :
    ∀ {before : List β} {s : σ} (lastError : Option ε), AllRaise x (fun _ e => caught e = true) before s s1 →
      (firstOf x caught last (before ++ b :: later) lastError).run s = .ok a s2
  | [], s, lastError, hraise => by
    obtain rfl : s1 = s := hraise
    rw [List.nil_append, firstOf, run_catching, hb]
  | c :: before, s, lastError, hraise => by
    obtain ⟨e, s', he, hc, hraise⟩ := hraise
    rw [List.cons_append, firstOf, run_catching, he]
    simp only [if_pos hc]
    exact hraise.run_firstOf_eq_ok later hb (some e)

/-- **The loop gives what the first alternative that works gives** exactly if
whatever is raised before it is caught. -/
theorem findsFirst_iff {bs : List β} {s : σ} (lastError : Option ε) :
    FindsFirst (firstOf x caught last bs lastError) x bs s ↔ ∀ before a s', FirstWorks x bs s before a s' →
      ∃ s1, AllRaise x (fun _ e => caught e = true) before s s1 := by
  constructor
  · intro h before a s' hw
    have hrun := h before a s' hw
    obtain ⟨b, later, s1, rfl, hraise, hb⟩ := hw
    exact ⟨s1, hraise.of_run_firstOf_eq_ok hrun⟩
  · intro h before a s' hw
    obtain ⟨s1', h'⟩ := h before a s' hw
    obtain ⟨b, later, s1, rfl, hraise, hb⟩ := hw
    exact ((hraise.and h').mono fun b _ e he => he.2).run_firstOf_eq_ok later hb lastError

end Program
end GpgMeister
