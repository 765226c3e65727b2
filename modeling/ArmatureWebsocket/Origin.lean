import ArmatureWebsocket.Handshake
import ArmatureWebsocket.Trimming

/-! # Which origins an allow list admits

An allow list admits a request without an `Origin` header, and one with a single `Origin` header
whose text has the normal form of an entry.  Texts with the same normal form differ only in case, in
white space around them and in slashes at their end.  The converse fails in one place: white space
is trimmed before the slashes are, so slashes written behind trailing white space expose it
(`allowList_check`). -/

namespace ArmatureWebsocket

/-! ### Letters -/

theorem toNat_toLower (c : Char) :
    c.toLower.toNat = if 65 ≤ c.toNat ∧ c.toNat ≤ 90 then c.toNat + 32 else c.toNat := by
  have hupper : (c.val ≥ 'A'.val ∧ c.val ≤ 'Z'.val) ↔ 65 ≤ c.toNat ∧ c.toNat ≤ 90 := Iff.rfl
  unfold Char.toLower
  split_ifs with h h' h'
  · have hsum : (c.val + ('a'.val - 'A'.val)).toNat = c.val.toNat + 32 := by
      rw [UInt32.toNat_add]
      have hle : c.val.toNat ≤ 90 := h'.2
      have hval : ('a'.val - 'A'.val).toNat = 32 := by decide
      omega
    exact hsum
  · exact absurd (hupper.mp h) h'
  · exact absurd (hupper.mpr h') h
  · rfl

theorem toLower_toLower (c : Char) : c.toLower.toLower = c.toLower := by
  rw [← Char.toNat_inj, toNat_toLower c.toLower, toNat_toLower c]
  split_ifs <;> omega

theorem isWhitespace_toLower (c : Char) : isWhitespace c.toLower = isWhitespace c := by
  rw [Bool.eq_iff_iff]
  simp only [isWhitespace, toNat_toLower, Bool.or_eq_true, Bool.and_eq_true, decide_eq_true_eq,
    beq_iff_eq]
  split_ifs <;> omega

theorem toLower_beq_slash (c : Char) : (c.toLower == '/') = (c == '/') := by
  rw [Bool.eq_iff_iff, beq_iff_eq, beq_iff_eq, ← Char.toNat_inj, ← Char.toNat_inj, toNat_toLower]
  have hslash : '/'.toNat = 47 := by decide
  split_ifs <;> omega

/-- How the letters of an origin are looked at. -/
def originAlphabet : Alphabet Char where
  blank := isWhitespace
  mark := (· == '/')
  fold := Char.toLower
  fold_fold := toLower_toLower
  blank_fold := isWhitespace_toLower
  mark_fold := toLower_beq_slash
  blank_of_mark := by
    intro c hc
    obtain rfl := beq_iff_eq.mp hc
    decide

/-! ### Normal forms -/

theorem normalizeOrigin_toList (x : String) :
    (normalizeOrigin x).toList = originAlphabet.form x.toList := by
  unfold normalizeOrigin
  rw [String.toList_ofList]
  rfl

theorem normalizeOrigin_eq_iff {x y : String} :
    normalizeOrigin x = normalizeOrigin y ↔
      originAlphabet.form x.toList = originAlphabet.form y.toList := by
  rw [← String.toList_inj, normalizeOrigin_toList, normalizeOrigin_toList]

/-- So many slashes. -/
def slashes (n : ℕ) : String := String.ofList (List.replicate n '/')

/-- The ways of writing the origin `x` that are meant to make no difference. -/
inductive OriginEdit (x : String) : String → Prop
  | case {x' : String} : x'.toList.map Char.toLower = x.toList.map Char.toLower → OriginEdit x x'
  | around {front back : String} : (∀ c ∈ front.toList, isWhitespace c = true) →
      (∀ c ∈ back.toList, isWhitespace c = true) → OriginEdit x (front ++ x ++ back)
  | slashes (n : ℕ) : OriginEdit x (x ++ slashes n)

/-- Slashes are written behind the white space at the end of an origin that is not blank. -/
def Exposes (x x' : String) : Prop :=
  ∃ n, x' = x ++ slashes (n + 1) ∧ originAlphabet.EndsBlank x.toList

variable {x x' : String}

/-- An edit leaves the normal form as it is unless it exposes white space. -/
theorem OriginEdit.normalizeOrigin_eq_iff (hedit : OriginEdit x x') :
    normalizeOrigin x' = normalizeOrigin x ↔ ¬ Exposes x x' := by
  have happend : ∀ n, normalizeOrigin (x ++ ArmatureWebsocket.slashes (n + 1)) = normalizeOrigin x ↔
      ¬ originAlphabet.EndsBlank x.toList := by
    intro n
    rw [ArmatureWebsocket.normalizeOrigin_eq_iff, String.toList_append,
      ArmatureWebsocket.slashes, String.toList_ofList]
    apply Alphabet.form_append_iff
    · simp
    · intro m hm
      exact beq_iff_eq.mpr (List.eq_of_mem_replicate hm)
  refine ⟨?_, fun hexposes => ?_⟩
  · rintro heq ⟨n, rfl, hblank⟩
    exact (happend n).mp heq hblank
  · cases hedit with
    | case h => exact ArmatureWebsocket.normalizeOrigin_eq_iff.mpr (Alphabet.form_eq_of_fold h)
    | around hfront hback =>
        rw [ArmatureWebsocket.normalizeOrigin_eq_iff, String.toList_append, String.toList_append]
        exact Alphabet.form_around hfront hback
    | slashes n =>
        cases n with
        | zero =>
            have hempty : x ++ ArmatureWebsocket.slashes 0 = x := String.append_empty
            rw [hempty]
        | succ n =>
            apply (happend n).mpr
            intro hblank
            exact hexposes ⟨n, rfl, hblank⟩

theorem normalizeOrigin_normalizeOrigin_iff (x : String) :
    normalizeOrigin (normalizeOrigin x) = normalizeOrigin x ↔
      ¬ originAlphabet.Strands x.toList := by
  rw [normalizeOrigin_eq_iff, normalizeOrigin_toList]
  exact Alphabet.form_form_iff x.toList

/-- It differs from the core in case, in white space around it and in slashes at its end only. -/
def OriginSpells (core x : String) : Prop := originAlphabet.Spells core.toList x.toList

theorem originSpells_normalizeOrigin (x : String) : OriginSpells (normalizeOrigin x) x := by
  unfold OriginSpells
  rw [normalizeOrigin_toList]
  exact Alphabet.spells_form x.toList

/-! ### Texts of headers -/

/-- A character of a header's text. -/
def isVisibleChar (c : Char) : Bool := 32 ≤ c.toNat && c.toNat < 127 || c.toNat == 9

/-- But for white space around it, the origin could be the text of a header. -/
def Spellable (x : String) : Prop :=
  ∃ front body back, x.toList = front ++ body ++ back ∧ (∀ c ∈ front, isWhitespace c = true) ∧
    (∀ c ∈ back, isWhitespace c = true) ∧ ∀ c ∈ body, isVisibleChar c = true

theorem isVisibleChar_toLower (c : Char) : isVisibleChar c.toLower = isVisibleChar c := by
  rw [Bool.eq_iff_iff]
  simp only [isVisibleChar, toNat_toLower, Bool.or_eq_true, Bool.and_eq_true, decide_eq_true_eq,
    beq_iff_eq]
  split_ifs <;> omega

theorem isVisibleChar_ofNat {b : UInt8} (h : isVisibleAscii b = true) :
    isVisibleChar (Char.ofNat b.toNat) = true := by
  have hnat : (Char.ofNat b.toNat).toNat = b.toNat := by
    have hlt := b.toNat_lt
    rw [Char.ofNat, dif_pos (Or.inl (by omega))]
    rfl
  simp only [isVisibleAscii, isVisibleChar, Bool.or_eq_true, Bool.and_eq_true, decide_eq_true_eq,
    beq_iff_eq, UInt8.le_iff_toNat_le, UInt8.lt_iff_toNat_lt, ← UInt8.toNat_inj, hnat] at h ⊢
  exact h

theorem isHeaderByte_of_isVisibleAscii {b : UInt8} (h : isVisibleAscii b = true) :
    isHeaderByte b = true := by
  simp only [isVisibleAscii, isHeaderByte, Bool.or_eq_true, Bool.and_eq_true, decide_eq_true_eq,
    beq_iff_eq, bne_iff_ne] at h ⊢
  refine h.imp_left fun ⟨hle, hlt⟩ => ⟨hle, ?_⟩
  rintro rfl
  exact absurd hlt (by decide)

theorem isVisibleAscii_ofNat {c : Char} (h : isVisibleChar c = true) :
    isVisibleAscii (UInt8.ofNat c.toNat) = true ∧
      Char.ofNat (UInt8.ofNat c.toNat).toNat = c := by
  simp only [isVisibleChar, Bool.or_eq_true, Bool.and_eq_true, decide_eq_true_eq,
    beq_iff_eq] at h
  have hlt : c.toNat < 128 := by omega
  have hmod : (UInt8.ofNat c.toNat).toNat = c.toNat := by
    rw [UInt8.toNat_ofNat']
    omega
  refine ⟨?_, by rw [hmod, Char.ofNat_toNat]⟩
  simp only [isVisibleAscii, Bool.or_eq_true, Bool.and_eq_true, decide_eq_true_eq, beq_iff_eq,
    UInt8.le_iff_toNat_le, UInt8.lt_iff_toNat_lt, ← UInt8.toNat_inj, hmod]
  exact h

theorem exists_toStr_iff (text : String) :
    (∃ value : HeaderValue, value.toStr = some text) ↔
      ∀ c ∈ text.toList, isVisibleChar c = true := by
  refine ⟨fun ⟨value, hvalue⟩ => ?_, fun hvisible => ?_⟩
  · unfold HeaderValue.toStr at hvalue
    split_ifs at hvalue with hall
    cases hvalue
    intro c hc
    rw [String.toList_ofList, List.mem_map] at hc
    obtain ⟨b, hb, rfl⟩ := hc
    exact isVisibleChar_ofNat (List.all_eq_true.mp hall b hb)
  · have hall : (text.toList.map fun c => UInt8.ofNat c.toNat).all isVisibleAscii = true := by
      rw [List.all_map, List.all_eq_true]
      intro c hc
      exact (isVisibleAscii_ofNat (hvisible c hc)).1
    refine ⟨⟨text.toList.map fun c => UInt8.ofNat c.toNat, ?_⟩, ?_⟩
    · rw [List.all_eq_true] at hall ⊢
      intro b hb
      exact isHeaderByte_of_isVisibleAscii (hall b hb)
    · unfold HeaderValue.toStr
      rw [if_pos hall, List.map_map]
      congr 1
      rw [← String.toList_inj, String.toList_ofList]
      conv_rhs => rw [← List.map_id text.toList]
      exact List.map_congr_left fun c hc => (isVisibleAscii_ofNat (hvisible c hc)).2

theorem spellable_iff (x : String) :
    Spellable x ↔ ∀ c ∈ originAlphabet.trimmed x.toList, isVisibleChar c = true := by
  refine ⟨?_, fun hvisible => ?_⟩
  · rintro ⟨front, body, back, hx, hfront, hback, hvisible⟩ c hc
    rw [hx, Alphabet.trimmed_around hfront hback] at hc
    exact hvisible c (Alphabet.mem_of_mem_trimmed hc)
  · obtain ⟨front, back, hx, hfront, hback⟩ :=
      Alphabet.exists_eq_around_trimmed originAlphabet x.toList
    exact ⟨front, _, back, hx, hfront, hback, hvisible⟩

/-- Some header has a text of the same normal form exactly when the origin can be written in one. -/
theorem exists_header_iff (x : String) :
    (∃ value : HeaderValue, ∃ text, value.toStr = some text ∧
      normalizeOrigin text = normalizeOrigin x) ↔ Spellable x := by
  have hform : ∀ y : String, (∀ c ∈ originAlphabet.form y.toList, isVisibleChar c = true) ↔
      ∀ c ∈ originAlphabet.trimmed y.toList, isVisibleChar c = true := by
    intro y
    apply Alphabet.forall_form_iff
    · intro c
      rw [← isVisibleChar_toLower c]
      rfl
    · intro c hc
      obtain rfl := beq_iff_eq.mp hc
      decide
  rw [spellable_iff]
  refine ⟨fun ⟨value, text, htext, heq⟩ => ?_, fun hspellable => ?_⟩
  · have hvisible := (exists_toStr_iff text).mp ⟨value, htext⟩
    apply (hform x).mp
    rw [← normalizeOrigin_eq_iff.mp heq]
    apply (hform text).mpr
    intro c hc
    exact hvisible c (Alphabet.mem_of_mem_trimmed hc)
  · have hvisible : ∀ c ∈ (String.ofList (originAlphabet.trimmed x.toList)).toList,
        isVisibleChar c = true := by
      rwa [String.toList_ofList]
    obtain ⟨value, hvalue⟩ := (exists_toStr_iff _).mpr hvisible
    refine ⟨value, _, hvalue, normalizeOrigin_eq_iff.mpr ?_⟩
    rw [String.toList_ofList]
    exact Alphabet.form_trimmed x.toList

theorem spellable_of_exposes (hexposes : Exposes x x') (hspellable : Spellable x') :
    Spellable x := by
  obtain ⟨n, rfl, -⟩ := hexposes
  rw [spellable_iff] at hspellable ⊢
  intro c hc
  apply hspellable
  have htrimmed : originAlphabet.trimmed (x ++ slashes (n + 1)).toList
      = x.toList.dropWhile isWhitespace ++ List.replicate (n + 1) '/' := by
    rw [String.toList_append, slashes, String.toList_ofList]
    apply Alphabet.trimmed_append_marks
    · simp
    · intro m hm
      exact beq_iff_eq.mpr (List.eq_of_mem_replicate hm)
  rw [htrimmed]
  exact List.mem_append_left _ ((Alphabet.trimmed_isPrefix _).subset hc)

/-! ### Decisions -/

namespace OriginPolicy

variable {request : HandshakeRequest} {allowed : List String}

/-- What an allow list says of a single header. -/
theorem check_single {value : HeaderValue} (hsingle : request.getAll "origin" = [value]) :
    (allowList allowed).check request = .ok () ↔
      ∃ origin, value.toStr = some origin ∧
        ∃ a ∈ allowed, normalizeOrigin a = normalizeOrigin origin := by
  unfold check
  rw [hsingle]
  cases htext : value.toStr with
  | none => simp [htext]
  | some origin => simp [htext]

theorem check_allowList_iff :
    (allowList allowed).check request = .ok () ↔
      request.getAll "origin" = [] ∨
        ∃ value origin, request.getAll "origin" = [value] ∧ value.toStr = some origin ∧
          ∃ a ∈ allowed, normalizeOrigin a = normalizeOrigin origin := by
  match hall : request.getAll "origin" with
  | [] => simp [check, hall]
  | [value] =>
      rw [check_single hall]
      simp
  | value :: value' :: rest => simp [check, hall]

theorem check_single_ne {value : HeaderValue} (hsingle : request.getAll "origin" = [value])
    (hne : (allowList allowed).check request ≠ .ok ()) :
    (allowList allowed).check request = .error ⟨.FORBIDDEN, "Origin not allowed"⟩ := by
  unfold check at hne ⊢
  rw [hsingle] at hne ⊢
  cases htext : value.toStr with
  | none => simp only [htext]
  | some origin =>
      simp only [htext] at hne ⊢
      split_ifs at hne ⊢
      · exact absurd rfl hne
      · rfl

theorem check_single_congr {allowed' : List String} {request' : HandshakeRequest}
    {value value' : HeaderValue} (hsingle : request.getAll "origin" = [value])
    (hsingle' : request'.getAll "origin" = [value'])
    (hiff : (allowList allowed).check request = .ok () ↔
      (allowList allowed').check request' = .ok ()) :
    (allowList allowed).check request = (allowList allowed').check request' := by
  by_cases hok : (allowList allowed).check request = .ok ()
  · rw [hok, hiff.mp hok]
  · rw [check_single_ne hsingle hok, check_single_ne hsingle' fun h => hok (hiff.mpr h)]

/-- A request with that header and no other. -/
def requestFrom (value : HeaderValue) : HandshakeRequest := ⟨"GET", "/ws", [("origin", value)]⟩

theorem getAll_requestFrom (value : HeaderValue) :
    (requestFrom value).getAll "origin" = [value] := rfl

/-- An entry can be written in another way exactly when that exposes no white space behind an origin
that a header can have. -/
theorem check_entry_iff (hedit : OriginEdit x x') :
    (∀ front back request, (allowList (front ++ x' :: back)).check request =
      (allowList (front ++ x :: back)).check request) ↔ ¬ (Exposes x x' ∧ Spellable x) := by
  refine ⟨fun hsame => ?_, fun hcond front back request => ?_⟩
  · rintro ⟨hexposes, hspellable⟩
    obtain ⟨value, text, htext, heq⟩ := (exists_header_iff x).mpr hspellable
    have hadmitted : (allowList [x]).check (requestFrom value) = .ok () :=
      (check_single (getAll_requestFrom value)).mpr
        ⟨text, htext, x, List.mem_singleton_self x, heq.symm⟩
    have hsame' : (allowList [x']).check (requestFrom value) = .ok () :=
      (hsame [] [] (requestFrom value)).trans hadmitted
    obtain ⟨text', htext', a, ha, heq'⟩ := (check_single (getAll_requestFrom value)).mp hsame'
    obtain rfl := List.mem_singleton.mp ha
    obtain rfl := Option.some.inj (htext.symm.trans htext')
    exact hedit.normalizeOrigin_eq_iff.mp (heq'.trans heq) hexposes
  · have hmatch : ∀ value text, HeaderValue.toStr value = some text →
        (normalizeOrigin x' = normalizeOrigin text ↔ normalizeOrigin x = normalizeOrigin text) := by
      intro value text htext
      by_cases hexposes : Exposes x x'
      · have hnot : ¬ Spellable x := fun hspellable => hcond ⟨hexposes, hspellable⟩
        refine ⟨fun heq => absurd ?_ hnot, fun heq => absurd ?_ hnot⟩
        · apply spellable_of_exposes hexposes
          exact (exists_header_iff x').mp ⟨value, text, htext, heq.symm⟩
        · exact (exists_header_iff x).mp ⟨value, text, htext, heq.symm⟩
      · rw [hedit.normalizeOrigin_eq_iff.mpr hexposes]
    match hall : request.getAll "origin" with
    | [] => simp [check, hall]
    | [value] =>
        apply check_single_congr hall hall
        rw [check_single hall, check_single hall]
        refine exists_congr fun text => and_congr_right fun htext => ?_
        simp only [List.mem_append, List.mem_cons, or_and_right, exists_or, exists_eq_left,
          hmatch value text htext]
    | value :: value' :: rest => simp [check, hall]

theorem check_header_iff {value value' : HeaderValue} (hvalue : value.toStr = some x)
    (hvalue' : value'.toStr = some x') (hedit : OriginEdit x x') :
    (∀ allowed request request', request.getAll "origin" = [value] →
      request'.getAll "origin" = [value'] →
        (allowList allowed).check request' = (allowList allowed).check request) ↔
      ¬ Exposes x x' := by
  rw [← hedit.normalizeOrigin_eq_iff]
  refine ⟨fun hsame => ?_, fun heq allowed request request' hsingle hsingle' => ?_⟩
  · have hadmitted : (allowList [x]).check (requestFrom value) = .ok () :=
      (check_single (getAll_requestFrom value)).mpr
        ⟨x, hvalue, x, List.mem_singleton_self x, rfl⟩
    have hsame' := hsame [x] (requestFrom value) (requestFrom value') rfl rfl
    obtain ⟨text, htext, a, ha, heq⟩ :=
      (check_single (getAll_requestFrom value')).mp (hsame'.trans hadmitted)
    obtain rfl := List.mem_singleton.mp ha
    obtain rfl := Option.some.inj (hvalue'.symm.trans htext)
    exact heq.symm
  · apply check_single_congr hsingle' hsingle
    rw [check_single hsingle, check_single hsingle']
    simp [hvalue, hvalue', heq]

/-- **Which origins an allow list admits**: written in another way, an entry, and a header, is
admitted as before, unless the other way puts slashes behind white space at its end (and, for an
entry, some header could match it); only there it changes the normal form.  The normal form is
normal unless slashes behind white space were taken off.  A request is admitted exactly when it has
no `Origin` header, or has one whose text matches an entry, and what matches differs only in case,
in white space around it and in slashes at its end. -/
theorem allowList_check (x x' : String) (hedit : OriginEdit x x') :
    ((∀ front back request, (allowList (front ++ x' :: back)).check request =
      (allowList (front ++ x :: back)).check request) ↔ ¬ (Exposes x x' ∧ Spellable x)) ∧
    (∀ value value' : HeaderValue, value.toStr = some x → value'.toStr = some x' →
      ((∀ allowed request request', request.getAll "origin" = [value] →
        request'.getAll "origin" = [value'] →
          (allowList allowed).check request' = (allowList allowed).check request) ↔
        ¬ Exposes x x')) ∧
    (normalizeOrigin x' = normalizeOrigin x ↔ ¬ Exposes x x') ∧
    (normalizeOrigin (normalizeOrigin x) = normalizeOrigin x ↔
      ¬ originAlphabet.Strands x.toList) ∧
    (∀ allowed request, (allowList allowed).check request = .ok () ↔
      request.getAll "origin" = [] ∨
        ∃ value origin, request.getAll "origin" = [value] ∧ value.toStr = some origin ∧
          ∃ a ∈ allowed, normalizeOrigin a = normalizeOrigin origin) ∧
    ∀ a origin, normalizeOrigin a = normalizeOrigin origin →
      ∃ core, OriginSpells core a ∧ OriginSpells core origin := by
  refine ⟨check_entry_iff hedit, fun _ _ hvalue hvalue' => check_header_iff hvalue hvalue' hedit,
    hedit.normalizeOrigin_eq_iff, normalizeOrigin_normalizeOrigin_iff x,
    fun _ _ => check_allowList_iff, fun a origin heq => ?_⟩
  refine ⟨normalizeOrigin a, originSpells_normalizeOrigin a, ?_⟩
  rw [heq]
  exact originSpells_normalizeOrigin origin

/-- The value `https://app.example.com`. -/
def appOrigin : HeaderValue :=
  ⟨"https://app.example.com".toList.map fun c => UInt8.ofNat c.toNat, by decide⟩

/-- An entry with two slashes at its end admits that origin as the one without them does. -/
theorem allowList_check_appOrigin :
    (allowList ["https://app.example.com" ++ slashes 2]).check (requestFrom appOrigin) =
      .ok () := by
  obtain ⟨hentry, -, hnormal, -⟩ := allowList_check "https://app.example.com" _ (.slashes 2)
  have hsame : ¬ Exposes "https://app.example.com" ("https://app.example.com" ++ slashes 2) :=
    hnormal.mp (by decide +kernel)
  have hcheck := hentry.mpr (fun h => hsame h.1) [] [] (requestFrom appOrigin)
  exact hcheck.trans (by decide +kernel)

/-- An entry with a space at its end admits that origin; with a slash behind the space it does
not. -/
theorem refused_slashBehindSpace :
    OriginEdit "https://app.example.com " ("https://app.example.com " ++ slashes 1) ∧
      (allowList ["https://app.example.com "]).check (requestFrom appOrigin) = .ok () ∧
        (allowList ["https://app.example.com " ++ slashes 1]).check (requestFrom appOrigin) =
          .error ⟨.FORBIDDEN, "Origin not allowed"⟩ :=
  ⟨.slashes 1, by decide +kernel⟩

end OriginPolicy
end ArmatureWebsocket
