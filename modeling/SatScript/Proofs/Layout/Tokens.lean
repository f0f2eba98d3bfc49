import SatScript.Proofs.Layout.Canonical
/-!
# SatScript — the tokens of a text

A text is made of tokens, with blanks between them: parentheses and the
texts of atoms. `Text.tokens` finds them without looking at how the lists
are nested. The tokens of a text whose lists are closed are those of its
forms (`tokens_layout`), and forms whose atoms are not empty are told by
their tokens (`bareItems_eq_of_tokensAll`). So two such texts hold the same
forms just if they have the same tokens, wherever there are blanks.
-/

namespace SatScript

namespace Text

/-- The token that is taken, if there is one. -/
def emit (taken : List Char) : List (List Char) := if taken = [] then [] else [taken]

/-- The tokens of a text, when some characters of a token are taken already. A
token that begins with a bar goes up to the next one. -/
def tokensBehind (taken : List Char) : List Char → List (List Char)
  | [] => emit taken
  | c :: cs =>
    if taken.head? = some '|' then
      if c = '|' then (taken ++ [c]) :: tokensBehind [] cs else tokensBehind (taken ++ [c]) cs
    else if isBlank c then emit taken ++ tokensBehind [] cs
    else if c = '(' ∨ c = ')' then emit taken ++ [c] :: tokensBehind [] cs
    else tokensBehind (taken ++ [c]) cs

/-- The tokens of a text: its parentheses and the texts of its atoms. -/
def tokens (cs : List Char) : List (List Char) := tokensBehind [] cs

@[simp] theorem emit_nil : emit [] = [] := rfl

@[simp] theorem tokens_nil : tokens [] = [] := rfl

/-- A blank is no token. -/
theorem tokens_cons_blank {c : Char} (hc : isBlank c = true) (cs : List Char) :
    tokens (c :: cs) = tokens cs := by
  rw [tokens, tokensBehind, if_neg (by simp), if_pos hc]
  rfl

/-- Blanks hold no token. -/
theorem tokens_blanks {before : List Char} (h : Blanks before) (cs : List Char) :
    tokens (before ++ cs) = tokens cs := by
  induction before with
  | nil => rfl
  | cons c before ih =>
    obtain ⟨hc, hbefore⟩ := h.of_cons
    rw [List.cons_append, tokens_cons_blank hc, ih hbefore]

/-- A parenthesis is a token. -/
theorem tokens_cons_paren {c : Char} (hc : c = '(' ∨ c = ')') (cs : List Char) :
    tokens (c :: cs) = [c] :: tokens cs := by
  have hblank : isBlank c ≠ true := by
    rcases hc with rfl | rfl <;> decide
  rw [tokens, tokensBehind, if_neg (by simp), if_neg hblank, if_pos hc]
  rfl

section

variable {first : Char} {taken text inner : List Char}

/-- A token without quotes goes on with characters that end no atom. -/
theorem tokensBehind_plain (hbar : first ≠ '|') (h : ∀ c ∈ text, Reader.endsAtom c = false)
    (cs : List Char) :
    tokensBehind (first :: taken) (text ++ cs) = tokensBehind (first :: (taken ++ text)) cs := by
  induction text generalizing taken with
  | nil => rw [List.append_nil, List.nil_append]
  | cons c text ih =>
    obtain ⟨hc, htext⟩ := List.forall_mem_cons.1 h
    obtain ⟨hblank, hopen, hclose⟩ := of_endsAtom_eq_false hc
    rw [List.cons_append, tokensBehind, if_neg (by simpa using hbar), if_neg (by simp [hblank]),
      if_neg (by simp [hopen, hclose]), List.cons_append, ih htext, List.append_assoc,
      List.singleton_append]

/-- A token without quotes ends where an atom does. -/
theorem tokensBehind_delimited (hbar : first ≠ '|') {cs : List Char} (h : Delimited cs) :
    tokensBehind (first :: taken) cs = (first :: taken) :: tokens cs := by
  cases cs with
  | nil => rfl
  | cons c cs =>
    have hc := delimited_cons.1 h
    rw [tokensBehind, if_neg (by simpa using hbar)]
    by_cases hblank : isBlank c = true
    · rw [if_pos hblank, tokens_cons_blank hblank]
      rfl
    · have hparen : c = '(' ∨ c = ')' := by simpa [Reader.endsAtom, hblank] using hc
      rw [if_neg hblank, if_pos hparen, tokens_cons_paren hparen]
      rfl

/-- A quoted token goes on up to the next bar. -/
theorem tokensBehind_quoted (h : '|' ∉ inner) (cs : List Char) :
    tokensBehind ('|' :: taken) (inner ++ cs) = tokensBehind ('|' :: (taken ++ inner)) cs := by
  induction inner generalizing taken with
  | nil => rw [List.append_nil, List.nil_append]
  | cons c inner ih =>
    obtain ⟨hc, hinner⟩ : '|' ≠ c ∧ '|' ∉ inner := by simpa using h
    rw [List.cons_append, tokensBehind, if_pos (by rfl), if_neg (Ne.symm hc), List.cons_append,
      ih hinner, List.append_assoc, List.singleton_append]

/-- **The text of an atom is a token.** -/
theorem tokens_atom {rest : List Char} (h : AtomStands text rest) :
    tokens (text ++ rest) = text :: tokens rest := by
  obtain ⟨first, more, htext, hfirst⟩ := h.exists_cons
  -- nothing is taken yet, so the first character begins the token
  have hbegin (cs : List Char) : tokens (first :: cs) = tokensBehind [first] cs := by
    obtain ⟨hblank, hopen, hclose⟩ := of_endsAtom_eq_false hfirst
    rw [tokens, tokensBehind, if_neg (by simp), if_neg (by simp [hblank]),
      if_neg (by simp [hopen, hclose])]
    rfl
  subst htext
  rw [List.cons_append, hbegin]
  cases h with
  | plain hplain hrest =>
    have hbar : first ≠ '|' := fun h => hplain.head_ne_bar (by rw [h]; rfl)
    rw [tokensBehind_plain hbar fun c hc => hplain.not_endsAtom c (List.mem_cons_of_mem _ hc),
      tokensBehind_delimited hbar hrest, List.nil_append]
  | @quoted inner _ hinner =>
    rw [List.append_assoc, tokensBehind_quoted hinner, List.singleton_append, tokensBehind,
      if_pos (by rfl), if_pos rfl]
    rfl
  | cut hinner =>
    rw [tokensBehind_quoted hinner]
    rfl

end

end Text

namespace Form

mutual

/-- The tokens of a form. The empty atom has none. -/
def tokens : Form → List (List Char)
  | .atom text _ _ => if text = "" then [] else [text.toList]
  | .list items _ _ => ['('] :: (tokensAll items ++ [[')']])

/-- The tokens of forms one after another. -/
def tokensAll : List Form → List (List Char)
  | [] => []
  | form :: forms => tokens form ++ tokensAll forms

end

end Form

namespace Layout

mutual

/-- **A layout that leaves no list open holds the tokens of its form**, whatever
stands behind it. -/
theorem tokens_layout : ∀ {layout : Layout} {rest : List Char} {offset : Nat},
    layout.Stands rest → layout.openAt? offset = none →
      Text.tokens (layout.chars ++ rest) = (layout.form offset).tokens ++ Text.tokens rest
  | .atom before text, rest, offset, h, _ => by
    rw [Stands] at h
    obtain ⟨c, cs, hcons, -⟩ := h.2.exists_cons
    have hne : String.ofList text ≠ "" := by
      rw [hcons]
      simp
    rw [chars, List.append_assoc, Text.tokens_blanks h.1, Text.tokens_atom h.2, form, Form.tokens,
      if_neg hne, String.toList_ofList, List.singleton_append]
  | .list before items gap false, rest, offset, _, hopen => by
    rw [openAt?, if_neg Bool.false_ne_true, Option.or_eq_none_iff] at hopen
    cases hopen.2
  | .list before items gap true, rest, offset, h, _ => by
    rw [Stands] at h
    obtain ⟨hbefore, -, hfilled⟩ := h
    have hrest : closing true ++ rest ≠ [] := List.cons_ne_nil _ _
    -- behind the items stand blanks and the parenthesis
    have hitems : Text.tokens (charsAll items ++ (gap ++ (closing true ++ rest))) =
        Form.tokensAll (forms (offset + Text.units before + 1) items) ++
          [')'] :: Text.tokens rest := by
      have hclose : Text.tokens (closing true ++ rest) = [')'] :: Text.tokens rest :=
        Text.tokens_cons_paren (.inr rfl) rest
      rcases hfilled with ⟨rfl, rfl⟩ | ⟨blanks, -, hblanks, rfl, rfl⟩ | ⟨-, hgap, hitems⟩
      · exact hclose
      · rw [charsAll, charsAll, chars, List.append_nil, List.append_nil, List.nil_append,
          Text.tokens_blanks hblanks, hclose]
        rfl
      · have hne : gap ++ (closing true ++ rest) ≠ [] :=
          List.append_ne_nil_of_right_ne_nil _ hrest
        rw [tokens_layouts hitems (openAtIn?_eq_none hitems hne), Text.tokens_blanks hgap, hclose]
    rw [chars, List.append_assoc, Text.tokens_blanks hbefore, List.cons_append,
      List.append_assoc, List.append_assoc, Text.tokens_cons_paren (.inl rfl), hitems, form,
      Form.tokens]
    simp

theorem tokens_layouts : ∀ {items : List Layout} {rest : List Char} {offset : Nat},
    StandAll items rest → openAtIn? offset items = none →
      Text.tokens (charsAll items ++ rest) =
        Form.tokensAll (forms offset items) ++ Text.tokens rest
  | [], _, _, _, _ => rfl
  | item :: items, rest, offset, h, hopen => by
    rw [StandAll] at h
    rw [openAtIn?, Option.or_eq_none_iff] at hopen
    rw [charsAll, List.append_assoc, tokens_layout h.1 hopen.1, tokens_layouts h.2 hopen.2, forms,
      Form.tokensAll, List.append_assoc]

end

end Layout

namespace Form

/-- A writable atom is one token, and no parenthesis. -/
theorem tokens_atom {text : String} {start stop : Nat} (h : (Form.atom text start stop).Writable) :
    (Form.atom text start stop).tokens = [text.toList] ∧
      ∀ c, c = '(' ∨ c = ')' → text.toList ≠ [c] := by
  rw [Writable] at h
  obtain ⟨first, more, htext, hfirst⟩ := (h.stands fun _ => delimited_nil).exists_cons
  obtain ⟨-, hopen, hclose⟩ := of_endsAtom_eq_false hfirst
  refine ⟨?_, fun c hc hparen => ?_⟩
  · have hne : text ≠ "" := by
      rintro rfl
      cases htext
    rw [tokens, if_neg hne]
  · rw [hparen] at htext
    obtain ⟨rfl, -⟩ := List.cons.inj htext
    exact hc.elim hopen hclose

/-- What stands behind the items of a list, as tokens: nothing, or the
parenthesis that closes it. -/
def Ends (rest : List (List Char)) : Prop := ∀ token, rest.head? = some token → token = [')']

theorem ends_nil : Ends [] := nofun

theorem ends_close (rest : List (List Char)) : Ends ([')'] :: rest) :=
  fun _ h => (Option.some.inj h).symm

/-- No writable form begins where a list ends. -/
theorem not_ends_tokens {form : Form} (h : form.Writable) (rest : List (List Char)) :
    ¬ Ends (form.tokens ++ rest) := by
  intro hends
  cases form with
  | atom text start stop =>
    obtain ⟨htokens, hparen⟩ := tokens_atom h
    exact hparen ')' (.inr rfl) (hends text.toList (by rw [htokens]; rfl))
  | list items start stop => exact absurd (hends ['('] rfl) (by decide)

mutual

/-- **A writable form is told by its tokens**, and so is what follows it. -/
theorem bare_eq_of_tokens : ∀ {form other : Form} {rest rest' : List (List Char)},
    form.Writable → other.Writable → form.tokens ++ rest = other.tokens ++ rest' →
      form.bare = other.bare ∧ rest = rest'
  | .atom text _ _, .atom text' _ _, rest, rest', hform, hother, h => by
    rw [(tokens_atom hform).1, (tokens_atom hother).1] at h
    obtain ⟨htext, hrest⟩ := List.cons.inj h
    rw [bare, bare, String.toList_inj.1 htext]
    exact ⟨rfl, hrest⟩
  | .atom text _ _, .list items _ _, rest, rest', hform, _, h => by
    rw [(tokens_atom hform).1] at h
    exact absurd (List.cons.inj h).1 ((tokens_atom hform).2 '(' (.inl rfl))
  | .list items _ _, .atom text _ _, rest, rest', _, hother, h => by
    rw [(tokens_atom hother).1] at h
    exact absurd (List.cons.inj h).1.symm ((tokens_atom hother).2 '(' (.inl rfl))
  | .list items _ _, .list items' _ _, rest, rest', hform, hother, h => by
    rw [Writable] at hform hother
    rw [tokens, tokens, List.cons_append, List.cons_append, List.append_assoc,
      List.append_assoc] at h
    obtain ⟨hitems, hclose⟩ := bareItems_eq_of_tokensAll hform hother (ends_close rest)
      (ends_close rest') (List.cons.inj h).2
    rw [bare, bare, hitems]
    exact ⟨rfl, (List.cons.inj hclose).2⟩

/-- Writable forms are told by their tokens, up to where they end. -/
theorem bareItems_eq_of_tokensAll : ∀ {forms others : List Form} {rest rest' : List (List Char)},
    WritableAll forms → WritableAll others → Ends rest → Ends rest' →
      tokensAll forms ++ rest = tokensAll others ++ rest' →
      bareItems forms = bareItems others ∧ rest = rest'
  | [], [], _, _, _, _, _, _, h => ⟨rfl, h⟩
  | [], other :: others, rest, rest', _, hothers, hrest, _, h => by
    rw [WritableAll] at hothers
    rw [tokensAll, tokensAll, List.nil_append, List.append_assoc] at h
    rw [h] at hrest
    exact absurd hrest (not_ends_tokens hothers.1 _)
  | form :: forms, [], rest, rest', hforms, _, _, hrest', h => by
    rw [WritableAll] at hforms
    rw [tokensAll, tokensAll, List.nil_append, List.append_assoc] at h
    rw [← h] at hrest'
    exact absurd hrest' (not_ends_tokens hforms.1 _)
  | form :: forms, other :: others, rest, rest', hforms, hothers, hrest, hrest', h => by
    rw [WritableAll] at hforms hothers
    rw [tokensAll, tokensAll, List.append_assoc, List.append_assoc] at h
    obtain ⟨hbare, hmore⟩ := bare_eq_of_tokens hforms.1 hothers.1 h
    obtain ⟨hbares, hrest⟩ := bareItems_eq_of_tokensAll hforms.2 hothers.2 hrest hrest' hmore
    exact ⟨by rw [bareItems, bareItems, hbare, hbares], hrest⟩

end

end Form

end SatScript
