import GlitchCore.Xray.Outbound

/-!
# Gaps never mask a refusal

A link that asks for something xray lacks goes to the fallback engine, which would also run what xray refuses
for the link's safety. The builders therefore return a gap only at their end. A result is passed when it is an
outbound or a gap; each builder's passed results have met every check of their protocol.
-/

namespace GlitchCore.Xray

open GoText Url Links

variable {net : Net} {u : URL} {q : Values} {host tag : Text}

/-! ### What makes a link unsafe -/

def securityNames : List Text := [[], "none".toList, "tls".toList, "reality".toList]

/-- The link's certificate checks are switched off under the TLS it runs on. -/
def SkipsUnderTLS (security : Text) (q : Values) : Prop := security = "tls".toList ∧ skipsVerification q = true

/-- Neither TLS, REALITY nor encryption to a public dial address. -/
def InTheClear (net : Net) (u : URL) : Prop :=
  securityOf u.query ≠ "tls".toList ∧ securityOf u.query ≠ "reality".toList ∧
    VlessEncryption.normalize (u.query.get "encryption".toList) = .ok VlessEncryption.noneValue ∧
    isPublicHost net (preResolveIPv4 net u.hostname) = true

def UnsafeVLESS (net : Net) (u : URL) : Prop :=
  SkipsUnderTLS (securityOf u.query) u.query ∨ securityOf u.query ∉ securityNames ∨
    (VlessEncryption.normalize (u.query.get "encryption".toList)).isOk = false ∨ InTheClear net u

/-- A trojan link runs over TLS unless it names REALITY. -/
def UnsafeTrojan (u : URL) : Prop := SkipsUnderTLS (securityOf (trojanQuery u.query)) u.query

def UnsafeVMess (l : Vmess.Link) : Prop :=
  SkipsUnderTLS (securityOf l.params) l.params ∨ securityOf l.params ∉ securityNames ∨
    toLower l.cipher ∉ vmessCiphers ∨ securityOf l.params = "reality".toList ∨
    (securityOf l.params = "tls".toList ∧ isEchSwitch l.params = true)

/-- One of the safety refusals applies to the link. -/
def UnsafeLink (net : Net) (link : Text) : Prop :=
  (Vmess.isLink link = true ∧ UnsafeVMess (Vmess.parse link).1) ∨
    (Vmess.isLink link = false ∧ ∃ u ∈ Url.parse link,
      (u.scheme = "vless".toList ∧ UnsafeVLESS net u) ∨ (u.scheme = "trojan".toList ∧ UnsafeTrojan u))

instance (security : Text) (q : Values) : Decidable (SkipsUnderTLS security q) := inferInstanceAs (Decidable (_ ∧ _))

instance (net : Net) (u : URL) : Decidable (InTheClear net u) := inferInstanceAs (Decidable (_ ∧ _ ∧ _ ∧ _))

instance (net : Net) (u : URL) : Decidable (UnsafeVLESS net u) := inferInstanceAs (Decidable (_ ∨ _ ∨ _ ∨ _))

instance (u : URL) : Decidable (UnsafeTrojan u) := inferInstanceAs (Decidable (SkipsUnderTLS _ _))

instance (l : Vmess.Link) : Decidable (UnsafeVMess l) := inferInstanceAs (Decidable (_ ∨ _ ∨ _ ∨ _ ∨ _))

instance (net : Net) (link : Text) : Decidable (UnsafeLink net link) := inferInstanceAs (Decidable (_ ∨ _))

/-! ### Stream settings -/

theorem streamTransport_plain (host : Text) (q : Values) :
    (streamTransport host q).1.security = [] ∧ (streamTransport host q).1.tlsSettings = none := by
  unfold streamTransport
  dsimp only
  repeat' split
  all_goals exact ⟨rfl, rfl⟩

/-- The layers `buildStreamSettings` gives. -/
theorem buildStreamSettings_ok {stream : StreamConfig} {gap : Option Gap}
    (hok : buildStreamSettings host q = .ok (stream, gap)) :
    ((securityOf q = [] ∨ securityOf q = "none".toList) ∧ stream.security = [] ∧ stream.tlsSettings = none) ∨
    (securityOf q = "tls".toList ∧ skipsVerification q = false ∧ stream.security = "tls".toList ∧
      stream.tlsSettings.isSome = true) ∨
    (securityOf q = "reality".toList ∧ stream.security = "reality".toList ∧ stream.tlsSettings = none) := by
  obtain ⟨hplain, hnotls⟩ := streamTransport_plain host q
  unfold buildStreamSettings at hok
  dsimp only at hok
  split at hok
  · rename_i hnone
    obtain ⟨rfl, -⟩ := Prod.mk.inj (Except.ok.inj hok)
    exact .inl ⟨hnone, hplain, hnotls⟩
  split at hok
  · rename_i htls
    split at hok
    · cases hok
    · rename_i hskip
      obtain ⟨rfl, -⟩ := Prod.mk.inj (Except.ok.inj hok)
      exact .inr (.inl ⟨htls, Bool.not_eq_true _ ▸ hskip, rfl, rfl⟩)
  split at hok
  · rename_i hreality
    obtain ⟨rfl, -⟩ := Prod.mk.inj (Except.ok.inj hok)
    exact .inr (.inr ⟨hreality, rfl, hnotls⟩)
  · cases hok

theorem safe_of_buildStreamSettings {stream : StreamConfig} {gap : Option Gap}
    (hok : buildStreamSettings host q = .ok (stream, gap)) :
    ¬SkipsUnderTLS (securityOf q) q ∧ securityOf q ∈ securityNames := by
  have htls : "tls".toList ≠ "reality".toList := by decide
  have hnone : "tls".toList ≠ [] ∧ "tls".toList ≠ "none".toList := by decide
  obtain ⟨h, -⟩ | ⟨h, hskip, -⟩ | ⟨h, -⟩ := buildStreamSettings_ok hok
  · refine ⟨fun hs => ?_, ?_⟩
    · rw [hs.1] at h
      exact h.elim hnone.1 hnone.2
    · simp only [securityNames, List.mem_cons]
      exact h.elim .inl fun h => .inr (.inl h)
  · refine ⟨fun hs => ?_, ?_⟩
    · rw [hs.2] at hskip
      cases hskip
    · rw [h]
      decide
  · refine ⟨fun hs => htls (hs.1.symm.trans h), ?_⟩
    rw [h]
    decide

/-! ### Passed results -/

/-- An outbound, or a refusal that sends the link to another engine. -/
def Passed {α : Type} (x : Except BuildError α) : Prop := ∀ e, x = .error e → e.isNotCarried = true

theorem Passed.bind_mapError {ε α β : Type} {x : Except ε α} {g : ε → BuildError} {f : α → Except BuildError β}
    (hg : ∀ e, (g e).isNotCarried = false) (h : Passed (x.mapError g >>= f)) : ∃ a, x = .ok a ∧ Passed (f a) := by
  cases x with
  | error e =>
      have hcarried := h (g e) rfl
      rw [hg e] at hcarried
      cases hcarried
  | ok a => exact ⟨a, rfl, h⟩

theorem not_passed_throw {α : Type} {e : BuildError} (he : e.isNotCarried = false) :
    ¬Passed (throw e : Except BuildError α) := by
  intro h
  rw [h e rfl] at he
  cases he

theorem passed_vless (h : Passed (outboundFromVLESS net u tag)) : ¬UnsafeVLESS net u := by
  unfold outboundFromVLESS at h
  dsimp only at h
  split at h
  · exact absurd h (not_passed_throw rfl)
  split at h
  · exact absurd h (not_passed_throw rfl)
  obtain ⟨⟨stream, gap⟩, hstream, h⟩ := h.bind_mapError fun _ => rfl
  obtain ⟨encryption, hencryption, h⟩ := h.bind_mapError fun _ => rfl
  dsimp only at h
  split at h
  · exact absurd h (not_passed_throw rfl)
  rename_i hcarried
  obtain ⟨hskips, hnames⟩ := safe_of_buildStreamSettings hstream
  rintro (hs | hs | hs | ⟨htls, hreality, hnone, hpublic⟩)
  · exact hskips hs
  · exact hs hnames
  · rw [hencryption] at hs
    cases hs
  · rw [hnone] at hencryption
    obtain rfl := Except.ok.inj hencryption
    have hplain : stream.security = [] := by
      obtain ⟨-, hplain, -⟩ | ⟨h, -⟩ | ⟨h, -⟩ := buildStreamSettings_ok hstream
      · exact hplain
      · exact absurd h htls
      · exact absurd h hreality
    simp [carriedSafely, hplain, hpublic] at hcarried

theorem passed_trojan (h : Passed (outboundFromTrojan net u tag)) : ¬UnsafeTrojan u := by
  unfold outboundFromTrojan at h
  dsimp only at h
  split at h
  · exact absurd h (not_passed_throw rfl)
  split at h
  · exact absurd h (not_passed_throw rfl)
  obtain ⟨⟨stream, gap⟩, hstream, h⟩ := h.bind_mapError fun _ => rfl
  obtain ⟨hskips, -⟩ := safe_of_buildStreamSettings hstream
  intro hs
  refine hskips ⟨hs.1, ?_⟩
  have hget : ∀ key, key ≠ "security".toList → (trojanQuery u.query).get key = u.query.get key :=
    fun key hne => Values.get_set_of_ne hne _ _
  have hsame : skipsVerification (trojanQuery u.query) = skipsVerification u.query := by
    simp only [skipsVerification, List.any_cons, List.any_nil]
    rw [hget _ (by decide), hget _ (by decide), hget _ (by decide)]
  exact hsame.trans hs.2

theorem passed_vmess {link : Text} (h : Passed (outboundFromVMess net link tag)) :
    ¬UnsafeVMess (Vmess.parse link).1 := by
  unfold outboundFromVMess at h
  split at h
  · rename_i l hparse
    rw [hparse]
    dsimp only at h
    split at h
    · exact absurd h (not_passed_throw rfl)
    split at h
    · exact absurd h (not_passed_throw rfl)
    rename_i hcipher
    split at h
    · exact absurd h (not_passed_throw rfl)
    rename_i hreality
    obtain ⟨⟨stream, gap⟩, hstream, h⟩ := h.bind_mapError fun _ => rfl
    dsimp only at h
    split at h
    · exact absurd h (not_passed_throw rfl)
    rename_i hech
    obtain ⟨hskips, hnames⟩ := safe_of_buildStreamSettings hstream
    rintro (hs | hs | hs | hs | ⟨htls, hswitch⟩)
    · exact hskips hs
    · exact hs hnames
    · exact hcipher hs
    · exact hreality hs
    · obtain ⟨hnone, -⟩ | ⟨-, -, -, hset⟩ | ⟨h, -⟩ := buildStreamSettings_ok hstream
      · rw [htls] at hnone
        exact absurd hnone (by decide)
      · exact hech ⟨hset, hswitch⟩
      · exact hreality h
  · exact absurd h (not_passed_throw rfl)


theorem passed_link {link : Text} (tag : Text) (h : Passed (outboundFromLink net link tag)) : ¬UnsafeLink net link := by
  unfold outboundFromLink at h
  rintro (⟨hvmess, hbad⟩ | ⟨hvmess, u, hparse, hbad⟩)
  · rw [if_pos hvmess] at h
    exact passed_vmess h hbad
  · rw [if_neg (Bool.eq_false_iff.mp hvmess), Option.mem_def.mp hparse] at h
    dsimp only at h
    obtain ⟨hscheme, hbad⟩ | ⟨hscheme, hbad⟩ := hbad
    · rw [if_pos hscheme] at h
      exact passed_vless h hbad
    · rw [hscheme, if_neg (by decide), if_neg (by decide), if_pos rfl] at h
      exact passed_trojan h hbad

/-- A link xray sends to another engine is one no safety refusal applies to, and a link one applies to is refused
without `NotCarriedError` whatever else it asks for. -/
theorem gap_never_masks_refusal (net : Net) (link tag : Text) :
    (∀ e, outboundFromLink net link tag = .error e → e.isNotCarried = true → ¬UnsafeLink net link) ∧
      (UnsafeLink net link → ∃ e, outboundFromLink net link tag = .error e ∧ e.isNotCarried = false) := by
  constructor
  · intro e he hcarried
    refine passed_link tag fun e' he' => ?_
    rw [he] at he'
    exact Except.error.inj he' ▸ hcarried
  · intro hbad
    by_contra hnone
    refine passed_link tag (fun e he => ?_) hbad
    by_contra hcarried
    exact hnone ⟨e, he, Bool.not_eq_true _ ▸ hcarried⟩

/-- A vless link over a transport xray lacks. -/
def kcpLink : Text := "vless://u@h.org:443?type=kcp&security=tls".toList

theorem gap_never_masks_refusal_kcp :
    (outboundFromLink publicNet kcpLink [] = .error (.notCarried "vless".toList (.transport "kcp".toList)) ∧
      ¬UnsafeLink publicNet kcpLink) ∧
    UnsafeLink publicNet (kcpLink ++ "&insecure=1".toList) ∧
      ∃ e, outboundFromLink publicNet (kcpLink ++ "&insecure=1".toList) [] = .error e ∧ e.isNotCarried = false := by
  have hgap : outboundFromLink publicNet kcpLink [] = .error (.notCarried "vless".toList (.transport "kcp".toList)) := by
    decide +kernel
  have hbad : UnsafeLink publicNet (kcpLink ++ "&insecure=1".toList) := by decide +kernel
  exact ⟨⟨hgap, (gap_never_masks_refusal publicNet kcpLink []).1 _ hgap rfl⟩, hbad,
    (gap_never_masks_refusal publicNet (kcpLink ++ "&insecure=1".toList) []).2 hbad⟩

end GlitchCore.Xray
