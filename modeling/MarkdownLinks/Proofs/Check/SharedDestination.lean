import MarkdownLinks.Proofs.Check.SpacedParts

/-! Destinations that a link and a reference definition can both be given. A link reads such a destination
as it is put together when no title follows it, and when a title ends right before the closing parenthesis.
Blanks behind the title change that: then the link ends neither behind the destination nor behind the blanks
that follow it, so the title, or a part of it, is taken as a part of the target. -/

namespace MarkdownLinks.Check

open Link

/-- A destination that can be written in a link and in a definition: a token, or angle brackets around
anything that does not end the destination or the link. -/
inductive SharedDestination where
  | token (s : Text) (ne_nil : s ≠ []) (free : ∀ c ∈ s, isBlank c = false ∧ c ≠ '[' ∧ c ≠ ')' ∧ c ≠ '<')
  | angled (s : Text) (free : ∀ c ∈ s, c ≠ '>' ∧ c ≠ '[' ∧ c ≠ ')' ∧ c ≠ '\n')

theorem withoutBrackets_of_getLast? {s : Text} (h : '>' ∉ s.getLast?) : Target.withoutBrackets s = s := by
  unfold Target.withoutBrackets
  split
  · rename_i inner
    rw [if_neg]
    exact fun hlast => h (List.mem_getLast?_cons hlast)
  · rfl

theorem eq_nil_of_withoutBrackets_eq {s z : Text} (hs : '>' ∉ s)
    (h : Target.withoutBrackets ('<' :: (s ++ '>' :: z)) = s) : z = [] := by
  cases z with
  | nil => rfl
  | cons c z =>
      refine absurd ?_ hs
      rw [← h, Target.withoutBrackets]
      split
      · rw [List.dropLast_append_of_ne_nil (List.cons_ne_nil _ _), List.dropLast_cons_of_ne_nil (List.cons_ne_nil c z)]
        simp
      · simp

theorem ne_angle_of_titleEnd? {c e : Char} (h : titleEnd? c = some e) : e ≠ '>' := by
  unfold titleEnd? at h
  split at h <;> cases h <;> decide

namespace SharedDestination

def written : SharedDestination → Text
  | token s _ _ => s
  | angled s _ => '<' :: (s ++ ['>'])

/-- What the destination stands for. -/
def target : SharedDestination → Text
  | token s _ _ => s
  | angled s _ => s

variable (d : SharedDestination)

theorem exists_written_eq_cons : ∃ c s, d.written = c :: s ∧ isBlank c = false ∧ c ≠ ')' := by
  cases d with
  | token s ne_nil free =>
      obtain ⟨c, u, rfl⟩ := List.exists_cons_of_ne_nil ne_nil
      obtain ⟨hblank, -, hparen, -⟩ := free c List.mem_cons_self
      exact ⟨c, u, rfl, hblank, hparen⟩
  | angled s free => exact ⟨'<', s ++ ['>'], rfl, rfl, by decide⟩

theorem free_of_mem_written {c : Char} (hc : c ∈ d.written) : c ≠ '[' ∧ c ≠ ')' ∧ c ≠ '\n' := by
  cases d with
  | token s ne_nil free =>
      obtain ⟨hblank, hopening, hparen, -⟩ := free c hc
      refine ⟨hopening, hparen, fun heq => ?_⟩
      rw [heq] at hblank
      cases hblank
  | angled s free =>
      simp only [written, List.mem_cons, List.mem_append, List.not_mem_nil, or_false] at hc
      rcases hc with rfl | hc | rfl
      · decide
      · exact (free c hc).2
      · decide

/-- The destination as it is written stands for what it stands for. -/
theorem destination_written : Target.destination d.written = d.target := by
  cases d with
  | token s ne_nil free =>
      have htrim : trim s = s := trim_of_not_isBlank fun c hc => (free c hc).1
      have hhead : '<' ∉ s.head? := fun h => (free _ (List.mem_of_mem_head? h)).2.2.2 rfl
      rw [written, Target.destination, htrim, withoutBrackets_of_head hhead]
      rfl
  | angled s free => exact destination_angled s

/-- With a title behind it the destination stands for the two of them, blanks at the end apart. -/
theorem destination_written_title (t : Title titleEnd?) {padding : Text} (hblank : ∀ c ∈ padding, isBlank c) :
    Target.destination (d.written ++ (t.text ++ padding)) = d.written ++ t.text := by
  have hlast : (d.written ++ t.text).getLast? = some t.closing := by
    rw [Title.text, ← List.cons_append, ← List.append_assoc, ← List.append_assoc, List.getLast?_concat]
  have hclosing : isBlank t.closing = false := isBlank_of_titleEnd? t.delimiters
  obtain ⟨c, u, hwritten, hc, -⟩ := d.exists_written_eq_cons
  have htrim : trim (d.written ++ t.text) = d.written ++ t.text := by
    refine trim_eq_self (fun e he => ?_) fun e he => ?_
    · rw [hwritten] at he
      cases he
      exact hc
    · rw [hlast] at he
      cases he
      exact hclosing
  rw [Target.destination, ← List.append_assoc, trim_append_of_isBlank hblank, htrim, withoutBrackets_of_getLast?]
  rw [hlast]
  intro h
  exact ne_angle_of_titleEnd? t.delimiters (Option.some.inj h)

/-- What is read in angle brackets at the front is the destination, if it is in angle brackets. -/
theorem angled?_written_append (s : Text) :
    angled? (d.written ++ s) = match d with
      | token _ _ _ => none
      | angled _ _ => some (d.written, s) := by
  cases d with
  | token u ne_nil free =>
      obtain ⟨c, u, rfl⟩ := List.exists_cons_of_ne_nil ne_nil
      exact angled?_eq_none fun hc => (free c List.mem_cons_self).2.2.2 (Option.some.inj hc)
  | angled u free =>
      have hwritten : (angled u free).written ++ s = '<' :: (u ++ '>' :: s) := by simp [written]
      rw [hwritten, angled?_append (fun hc => (free _ hc).1 rfl)]
      rfl

/-- A link whose title ends right before the closing parenthesis has its destination as its target. -/
theorem spacedTarget?_titled (title : Option (Title titleEnd?)) :
    spacedTarget? (d.written ++ (titleText title ++ [')'])) = some (d.written, []) := by
  have hclose : close? titleEnd? (titleText title ++ [')']) = some [] :=
    (close?_eq_some_iff titleEnd?_eq_none_of_isBlank).2 ⟨title, rfl⟩
  cases d with
  | token s ne_nil free =>
      have hshortest : shortest? titleEnd? (s ++ (titleText title ++ [')'])) = some (s, []) := by
        refine shortest?_append ne_nil (fun h => (free _ h).2.2.1 rfl) (fun v hv _ hnil => ?_) hclose
        obtain ⟨c, v, rfl⟩ := List.exists_cons_of_ne_nil hnil
        obtain ⟨hblank, -, hparen, -⟩ := free c (hv.subset List.mem_cons_self)
        exact close?_cons_eq_none hblank hparen _
      rw [written, ← hshortest]
      refine spacedTarget?_eq_shortest? fun written' rest h => ?_
      cases ((token s ne_nil free).angled?_written_append _).symm.trans h
  | angled s free =>
      rw [written, ← spacedTarget?_angled (fun h => (free _ h).1 rfl) hclose]
      simp

/-- A link with blanks in front of its only closing parenthesis has all that stands before it as its target. -/
theorem spacedTarget?_padded {s padding : Text} (hs : ')' ∉ s) (hne : padding ≠ []) (hblank : ∀ c ∈ padding, isBlank c) :
    spacedTarget? (d.written ++ (s ++ padding ++ [')'])) = some (d.written ++ (s ++ padding), []) := by
  have hparen : ')' ∉ d.written ++ (s ++ padding) := fun h => by
    rcases List.mem_append.1 h with h | h
    · exact (d.free_of_mem_written h).2.1 rfl
    · exact (List.mem_append.1 h).elim hs fun h => absurd (hblank _ h) (by decide)
  have hnone : ∀ v, v <:+ d.written ++ (s ++ padding) → v ≠ [] → close? titleEnd? (v ++ [')']) = none := by
    rintro v ⟨u, hu⟩ hnil
    have hlast : padding.getLast hne ∈ v.getLast? := by
      rw [← List.getLast?_append_of_ne_nil u hnil, hu, ← List.append_assoc, List.getLast?_append_of_ne_nil _ hne,
        List.getLast?_eq_some_getLast hne]
      rfl
    exact close?_concat_eq_none (fun h => hparen (hu ▸ List.mem_append_right u h)) hlast (hblank _ (List.getLast_mem hne))
  have htail : s ++ padding ≠ [] := List.append_ne_nil_of_right_ne_nil s hne
  have hshortest : shortest? titleEnd? (d.written ++ (s ++ padding) ++ [')']) = some (d.written ++ (s ++ padding), []) :=
    shortest?_append (List.append_ne_nil_of_right_ne_nil _ htail) hparen (fun v hv _ hnil => hnone v hv hnil) rfl
  rw [← List.append_assoc, ← hshortest]
  refine spacedTarget?_eq_shortest? fun written' rest h => ?_
  rw [List.append_assoc, angled?_written_append] at h
  split at h <;> cases h
  exact hnone _ (List.suffix_append _ _) htail

/-- What stands behind a destination and is no part of what it stands for is blank. -/
theorem isBlank_behind_destination {z : Text} (h : Target.destination (d.written ++ z) = d.target) :
    ∀ c ∈ z, isBlank c := by
  cases d with
  | token s ne_nil free =>
      obtain ⟨c, u, rfl⟩ := List.exists_cons_of_ne_nil ne_nil
      obtain ⟨hblank, -, -, hangle⟩ := free c List.mem_cons_self
      rw [written, Target.destination, withoutBrackets_of_head] at h
      · exact isBlank_of_trim_append_eq ne_nil (fun e he => (by cases he; exact hblank)) h
      · rw [List.cons_append, head?_trim hblank]
        exact fun hc => hangle (Option.some.inj hc)
  | angled s free =>
      have hs : '>' ∉ s := fun hc => (free _ hc).1 rfl
      obtain ⟨blanks, heq, hblanks⟩ := exists_trimEnd ((angled s free).written ++ z)
      have htrim : trim ((angled s free).written ++ z) = trimEnd ((angled s free).written ++ z) := by
        rw [trim, written, List.cons_append, trimStart_cons_of_not rfl]
      rcases List.append_eq_append_iff.1 heq with ⟨y, hy, hz⟩ | ⟨y, -, hz⟩
      · have hnil : y = [] := by
          refine eq_nil_of_withoutBrackets_eq hs ?_
          have hshape : '<' :: (s ++ ['>']) ++ y = '<' :: (s ++ '>' :: y) := by simp
          rw [Target.destination, htrim, hy, written, hshape] at h
          exact h
        rw [hz, hnil]
        exact hblanks
      · exact fun c hc => hblanks c (hz ▸ List.mem_append_right y hc)

/-- No link ends within a destination behind something that stands for it. -/
theorem close?_within_destination {p z : Text} (hp : p ≠ []) (hz : z ≠ []) (h : d.written = p ++ z)
    (hdest : Target.destination p = d.target) (s : Text) : close? titleEnd? (z ++ s) = none := by
  cases d with
  | token u ne_nil free =>
      obtain ⟨c, z, rfl⟩ := List.exists_cons_of_ne_nil hz
      obtain rfl : u = p ++ c :: z := h
      obtain ⟨hblank, -, hparen, -⟩ := free c (List.mem_append_right p List.mem_cons_self)
      exact close?_cons_eq_none hblank hparen _
  | angled u free =>
      obtain ⟨c, p, rfl⟩ := List.exists_cons_of_ne_nil hp
      obtain ⟨y, e, rfl⟩ := (List.eq_nil_or_concat' z).resolve_left hz
      rw [written, List.cons_append, List.cons.injEq, ← List.append_assoc] at h
      obtain ⟨rfl, hinner⟩ := h
      obtain ⟨rfl, he⟩ := List.append_inj' hinner rfl
      obtain rfl := (List.cons.inj he).1
      -- what stands for the destination is as long as it, so at most one character of it is left
      have hlength : y.length ≤ 1 := by
        have hp : '>' ∉ trim ('<' :: p) := fun hc => by
          rcases List.mem_cons.1 (mem_of_mem_trim hc) with hc | hc
          · exact absurd hc (by decide)
          · exact (free _ (List.mem_append_left y hc)).1 rfl
        have htrim : trim ('<' :: p) = p ++ y := by
          rwa [Target.destination, withoutBrackets_of_getLast? fun h => hp (List.mem_of_mem_getLast? h)] at hdest
        have hle := length_trim_le ('<' :: p)
        rw [htrim, List.length_append, List.length_cons] at hle
        omega
      cases y with
      | nil => exact close?_cons_eq_none rfl (by decide) s
      | cons d y =>
          obtain rfl : y = [] := List.eq_nil_of_length_eq_zero (by simpa using hlength)
          obtain ⟨-, -, hparen, -⟩ := free d (by simp)
          cases hblank : isBlank d with
          | false => exact close?_cons_eq_none hblank hparen _
          | true =>
              have hhead : ')' ∉ ([d] ++ ['>']).head? := fun hc => hparen (Option.some.inj hc)
              refine close?_append_eq_none titleEnd?_eq_none_of_isBlank (fun c hc => ?_) ⟨'>', by simp, rfl⟩ hhead s
              simp only [List.cons_append, List.nil_append, List.mem_cons, List.not_mem_nil, or_false] at hc
              rcases hc with rfl | rfl
              · exact titleEnd?_eq_none_of_isBlank hblank
              · rfl

section
variable (t : Title titleEnd?) {padding : Text} (hne : padding ≠ []) (hblank : ∀ c ∈ padding, isBlank c)
include hne hblank

/-- With blanks behind the title no link ends in front of the title or of blanks before it. -/
theorem close?_in_front_of_title {blanks s' : Text} (hblanks : ∀ c ∈ blanks, isBlank c)
    (h : t.text ++ (padding ++ [')']) = blanks ++ s') : close? titleEnd? s' = none := by
  have hopening : isBlank t.opening = false := t.isBlank_opening titleEnd?_eq_none_of_isBlank
  have hparen : t.opening ≠ ')' := fun heq => by
    have hdelim := t.delimiters
    rw [heq] at hdelim
    cases hdelim
  rw [t.text_append] at h
  rcases List.append_eq_append_iff.1 h with ⟨z, hz, hs'⟩ | ⟨z, hz, rfl⟩
  · cases z with
    | nil =>
        rw [← List.nil_append s', ← hs']
        exact close?_cons_eq_none hopening hparen _
    | cons c z =>
        -- the opening delimiter would be one of the blanks
        have hmem : t.opening ∈ blanks := by
          rw [hz, (List.cons.inj hs').1]
          simp
        rw [hblanks _ hmem] at hopening
        cases hopening
  · cases hz' : z with
    | nil => exact close?_cons_eq_none hopening hparen _
    | cons c z' =>
        have hz'' : ∀ c ∈ z, isBlank c := fun c hc => t.isBlank_of_mem c (hz ▸ List.mem_append_right blanks hc)
        let t' : Title titleEnd? :=
          ⟨z, t.opening, t.inner, t.closing, by simp [hz'], hz'', t.delimiters, t.closing_not_mem⟩
        have htext : z ++ t.opening :: (t.inner ++ t.closing :: (padding ++ [')'])) = t'.text ++ (padding ++ [')']) :=
          (t'.text_append _).symm
        rw [← hz', htext]
        refine Option.eq_none_iff_forall_ne_some.2 fun rest hclose => ?_
        have hpadding := (close?_text_append_eq_some_iff titleEnd?_eq_none_of_isBlank t').1 hclose
        obtain ⟨e, w, rfl⟩ := List.exists_cons_of_ne_nil hne
        have he := hblank e List.mem_cons_self
        rw [(List.cons.inj hpadding).1] at he
        exact absurd he (by decide)

/-- With blanks behind the title no link ends behind something that stands for the destination. -/
theorem close?_behind_destination (d : SharedDestination) {p s' : Text} (hp : p ≠ [])
    (h : d.written ++ (t.text ++ (padding ++ [')'])) = p ++ s') (hdest : Target.destination p = d.target) :
    close? titleEnd? s' = none := by
  have hbehind : ∀ z, p = d.written ++ z → (∀ c ∈ z, isBlank c) → close? titleEnd? s' = none := by
    rintro z rfl hz
    rw [List.append_assoc] at h
    exact close?_in_front_of_title t hne hblank hz (List.append_cancel_left h)
  rcases List.append_eq_append_iff.1 h with ⟨z, hz, -⟩ | ⟨z, hz, rfl⟩
  · exact hbehind z hz (isBlank_behind_destination d (hz ▸ hdest))
  · by_cases hnil : z = []
    · rw [hnil, List.append_nil] at hz
      exact hbehind [] (by rw [hz, List.append_nil]) (List.forall_mem_nil _)
    · exact close?_within_destination d hp hnil hz hdest _

end

end SharedDestination

end MarkdownLinks.Check
