import LedgerUri.Proofs.Answer.Reads

/-!
# Spellings of keys

A key is a text for bytes, and the same bytes have other texts too: padding and escapes are gone
once a URI has been read, but the bits at the end of a key that carry nothing stay as they are. Two
queries whose keys stand for the same bytes read the same and find the same. What differs is the
text of the key that each item echoes.

* `ApplicationRequest.SameBytes` — requests that differ in the spelling of their keys;
* `ApplicationAnswer.respell` — an answer with the keys of another request;
* `Resolve.answerItems_respell` — the answer to a request that is spelled otherwise;
* `resolveApplicationWith_respell` — the same for queries and URIs, however they are resolved.
-/

namespace LedgerUri

open Resolve
open Base64.UrlSafe (decode)

/-! ## Statements -/

/-- Two requests for the same bytes in the same order, whatever texts these have. -/
structure ApplicationRequest.SameBytes (r s : ApplicationRequest) : Prop where
  /-- the same boxes -/
  boxKeys : List.Forall₂ (fun k l => decode k = decode l) r.boxKeys s.boxKeys
  /-- the same global state -/
  globalKeys : List.Forall₂ (fun k l => decode k = decode l) r.globalKeys s.globalKeys
  /-- the same local state of the same accounts -/
  localReads : List.Forall₂ (fun k l => decode k.key = decode l.key ∧ k.address = l.address)
    r.localReads s.localReads
  /-- the programs, or not -/
  programs : r.programs = s.programs

/-- The same failure under another key. Only a missing key changes: a key that was read is not a
bad one. -/
def ItemFailure.respell (key : String) : ItemFailure → ItemFailure
  | absent _ => absent key
  | error => error

/-- The same box under another key. -/
def FoundBox.withKey (key : String) (found : FoundBox) : FoundBox :=
  { found with key := key }

/-- The same entry of global state under another key. -/
def FoundGlobal.withKey (key : String) (found : FoundGlobal) : FoundGlobal :=
  { found with key := key }

/-- The same entry of local state under another key. -/
def FoundLocal.withKey (key : String) (found : FoundLocal) : FoundLocal :=
  { found with key := key }

namespace Resolve

variable {α : Type}

/-- The same item under another key, which `set` puts into what was found. -/
def respellItem (set : String → α → α) (key : String) :
    Except ItemFailure α → Except ItemFailure α
  | .ok found => .ok (set key found)
  | .error error => .error (error.respell key)

/-- The same items under other keys. -/
def respellItems (set : String → α → α) (keys : List String)
    (items : List (Except ItemFailure α)) : List (Except ItemFailure α) :=
  keys.zipWith (respellItem set) items

end Resolve

/-- The same answer with the keys of a request. -/
def ApplicationAnswer.respell (r : ApplicationRequest) (o : ApplicationAnswer) :
    ApplicationAnswer :=
  { o with
    boxes := respellItems FoundBox.withKey r.boxKeys o.boxes
    global := respellItems FoundGlobal.withKey r.globalKeys o.global
    locals := respellItems FoundLocal.withKey (r.localReads.map LocalRequest.key) o.locals }

/-- The same answer with the keys of a request, if it is about an application. -/
def Answer.respell (r : ApplicationRequest) : Answer → Answer
  | application o => application (o.respell r)
  | token o => token o

namespace Resolve

/-! ## Lists of items -/

section Items

variable {α : Type} {set : String → α → α} {keys : List String}
  {items : List (Except ItemFailure α)}

theorem isFatal_respellItem (key : String) (item : Except ItemFailure α) :
    isFatal (respellItem set key item) = isFatal item := by
  rcases item with error | found
  · cases error <;> rfl
  · rfl

/-- Items that only differ in their keys are made of keys that differ. -/
theorem map_eq_respellItems {κ : Type} {R : κ → κ → Prop} (result : κ → Except ItemFailure α)
    (key : κ → String) (hitem : ∀ k l, R k l → result l = respellItem set (key l) (result k))
    {ks ls : List κ} (h : List.Forall₂ R ks ls) :
    ls.map result = respellItems set (ls.map key) (ks.map result) := by
  induction h with
  | nil => rfl
  | @cons k l ks ls hkl _ ih =>
    rw [List.map_cons, hitem k l hkl, ih]
    rfl

/-- The first fatal item is at the same place. -/
theorem upTo_respellItems :
    upTo isFatal (respellItems set keys items) =
      respellItems set keys (upTo isFatal items) := by
  induction items generalizing keys with
  | nil => simp [respellItems, upTo]
  | cons item items ih =>
    rcases keys with _ | ⟨key, keys⟩
    · simp [respellItems, upTo]
    · have hrest : upTo isFatal (keys.zipWith (respellItem set) items) =
          keys.zipWith (respellItem set) (upTo isFatal items) := ih
      simp only [respellItems, upTo, List.zipWith_cons_cons, isFatal_respellItem, hrest]
      cases isFatal item <;> simp

/-- A fatal item has the same wording under any key. -/
theorem fatalMessage?_respellItems (h : items.length ≤ keys.length) :
    fatalMessage? (respellItems set keys items) = fatalMessage? items := by
  induction items generalizing keys with
  | nil => simp [respellItems]
  | cons item items ih =>
    rcases keys with _ | ⟨key, keys⟩
    · cases h
    · have hrest := ih (Nat.le_of_succ_le_succ h)
      simp only [fatalMessage?, respellItems] at hrest
      simp only [fatalMessage?, respellItems, List.zipWith_cons_cons, List.findSome?_cons, hrest]
      rcases item with error | found
      · cases error <;> rfl
      · rfl

end Items

/-! ## Items -/

section Keys

variable {client : Client} {id : ResourceId} {bytes : List UInt8}

theorem boxResult_respell {k l : String} (hk : decode k = .ok bytes) (hl : decode l = .ok bytes) :
    boxResult client id l = respellItem FoundBox.withKey l (boxResult client id k) := by
  rw [boxResult_of_decode hk, boxResult_of_decode hl]
  rcases client.box id bytes with error | value
  · simp only [boxItem]
    split <;> rfl
  · rfl

theorem globalItem_respell {k l : String} (hk : decode k = .ok bytes) (hl : decode l = .ok bytes)
    (index : KeyedState) :
    globalItem index l = respellItem FoundGlobal.withKey l (globalItem index k) := by
  rw [globalItem_of_decode hk, globalItem_of_decode hl]
  cases index.get? (Base64.UrlSafe.encode bytes) <;> rfl

theorem localItem_respell {k l : LocalRequest} (haddress : k.address = l.address)
    (canonical : String) (answer : Except ReadError AccountRecord) :
    localItem id l canonical answer =
      respellItem FoundLocal.withKey l.key (localItem id k canonical answer) := by
  rcases answer with error | account
  · simp only [localItem, haddress]
    split <;> rfl
  · cases hstate : account.localState? id with
    | none => simp only [localItem, hstate, haddress, respellItem, ItemFailure.respell]
    | some state =>
      simp only [localItem, hstate, haddress]
      cases (KeyedState.ofEntries state.entries).get? canonical <;> rfl

theorem localResult_respell {k l : LocalRequest} (hk : decode k.key = .ok bytes)
    (hl : decode l.key = .ok bytes) (haddress : k.address = l.address) :
    localResult client id l =
      respellItem FoundLocal.withKey l.key (localResult client id k) := by
  rw [localResult_of_decode hk, localResult_of_decode hl, ← haddress]
  exact localItem_respell haddress _ _

end Keys

/-! ## Answers -/

section Answers

variable {r s : ApplicationRequest}

/-- Items of keys that are read, each under another key for the same bytes. -/
theorem keyItems_respell {α : Type} {set : String → α → α}
    (result : String → Except ItemFailure α)
    (hitem : ∀ k l bytes, decode k = .ok bytes → decode l = .ok bytes →
      result l = respellItem set l (result k))
    {ks ls : List String} (hks : ∀ k ∈ ks, Uri.IsKey k)
    (h : List.Forall₂ (fun k l => decode k = decode l) ks ls) :
    ls.map result = respellItems set ls (ks.map result) := by
  have hkeys := (List.forall₂_and_left ks ls).2 ⟨hks, h⟩
  have hitems : ls.map result = respellItems set (ls.map fun l => l) (ks.map result) := by
    refine map_eq_respellItems result (fun l => l) ?_ hkeys
    rintro k l ⟨hkey, hsame⟩
    obtain ⟨bytes, hbytes⟩ := exists_decode_of_isKey hkey
    exact hitem k l bytes hbytes (hsame ▸ hbytes)
  rwa [List.map_id'] at hitems

theorem localItems_respell (hw : r.Writable) (h : r.SameBytes s) (client : Client)
    (id : ResourceId) :
    s.localReads.map (localResult client id) =
      respellItems FoundLocal.withKey (s.localReads.map LocalRequest.key)
        (r.localReads.map (localResult client id)) := by
  have hreads := (List.forall₂_and_left r.localReads s.localReads).2 ⟨hw.localKeys, h.localReads⟩
  refine map_eq_respellItems (localResult client id) LocalRequest.key ?_ hreads
  rintro k l ⟨hkey, hsame, haddress⟩
  obtain ⟨bytes, hbytes⟩ := exists_decode_of_isKey hkey
  exact localResult_respell hbytes (hsame ▸ hbytes) haddress

/-- **The answer to a request whose keys are spelled otherwise** differs in the keys that it
echoes. -/
theorem answerItems_respell (hw : r.Writable) (h : r.SameBytes s) (client : Client)
    (id : ResourceId) (record : ApplicationRecord) :
    answerItems client id s record = (answerItems client id r record).respell s := by
  have hboxes : s.boxKeys.map (boxResult client id) =
      respellItems FoundBox.withKey s.boxKeys (r.boxKeys.map (boxResult client id)) := by
    apply keyItems_respell _ _ hw.boxKeys h.boxKeys
    intro k l bytes hk hl
    exact boxResult_respell hk hl
  have hglobal (index : KeyedState) : s.globalKeys.map (globalItem index) =
      respellItems FoundGlobal.withKey s.globalKeys (r.globalKeys.map (globalItem index)) := by
    apply keyItems_respell _ _ hw.globalKeys h.globalKeys
    intro k l bytes hk hl
    exact globalItem_respell hk hl index
  have hlength : (upTo isFatal (r.localReads.map (localResult client id))).length ≤
      (s.localReads.map LocalRequest.key).length := by
    have hprefix := List.IsPrefix.length_le <|
      upTo_prefix isFatal (r.localReads.map (localResult client id))
    rw [List.length_map, h.localReads.length_eq] at hprefix
    rwa [List.length_map]
  simp only [answerItems, answerOf, ApplicationAnswer.respell, hboxes, hglobal,
    localItems_respell hw h, upTo_respellItems, fatalMessage?_respellItems hlength, h.programs]

end Answers

end Resolve

/-- Without an application there are no items, and so no keys. -/
theorem ApplicationAnswer.respell_missing (s : ApplicationRequest) (id : ResourceId)
    (reason : String) : (missing id reason).respell s = missing id reason := by
  simp [missing, respell, respellItems]

section Queries

variable {q₁ q₂ : Query} {r s : ApplicationRequest}

theorem answerApplication_respell (client : Client) (hid : q₁.id = q₂.id)
    (hr : q₁.request = .application r) (hs : q₂.request = .application s) (hw : r.Writable)
    (h : r.SameBytes s) :
    answerApplication client q₂ = (answerApplication client q₁).map (.respell s) := by
  simp only [answerApplication, hr, hs, ← hid]
  cases client.application q₁.id with
  | ok record => exact congrArg Except.ok (answerItems_respell hw h client q₁.id record)
  | error error =>
    by_cases hmissing : error.isMissing = true
    · simp only [if_pos hmissing, Except.map, ApplicationAnswer.respell_missing]
    · simp only [if_neg hmissing, Except.map]

/-! ## Reads -/

/-- The reads of boxes follow from the bytes of their keys. -/
theorem boxReads_eq {id : ResourceId} {ks ls : List String} {reads again : List Read}
    (hsame : List.Forall₂ (fun k l => Base64.UrlSafe.decode k = Base64.UrlSafe.decode l) ks ls)
    (h : List.Forall₂ (BoxRead id) ks reads) (hagain : List.Forall₂ (BoxRead id) ls again) :
    again = reads := by
  induction hsame generalizing reads again with
  | nil =>
    cases h
    cases hagain
    rfl
  | cons hkl _ ih =>
    obtain ⟨_, _, ⟨bytes, hk, rfl⟩, hreads, rfl⟩ := List.forall₂_cons_left_iff.1 h
    obtain ⟨_, _, ⟨bytes', hl, rfl⟩, hreads', rfl⟩ := List.forall₂_cons_left_iff.1 hagain
    rw [← hkl, hk] at hl
    obtain rfl := Except.ok.inj hl
    rw [ih hreads hreads']

/-- The reads of accounts follow from the addresses alone. -/
theorem accountReads_eq (h : r.SameBytes s) (n : ℕ) :
    ((s.localReads.take n).map fun l => Read.account l.address) =
      (r.localReads.take n).map fun l => .account l.address := by
  have haddresses : r.localReads.map (fun l => Read.account l.address) =
      s.localReads.map fun l => .account l.address := by
    rw [← List.forall₂_eq_eq_eq, List.forall₂_map_left_iff, List.forall₂_map_right_iff]
    exact h.localReads.imp fun _ _ hsame => congrArg Read.account hsame.2
  rw [List.map_take, List.map_take, haddresses]

/-- Two logs are the same when the answers only differ in the keys that they echo. -/
theorem ApplicationLog.reads_eq {id : ResourceId}
    {application : Except ReadError ApplicationRecord} {one two : Resolution ApplicationAnswer}
    (hone : ApplicationLog id r application one) (htwo : ApplicationLog id s application two)
    (h : r.SameBytes s) (hanswer : two.answer = one.answer.map (.respell s)) :
    two.reads = one.reads := by
  cases application with
  | error error => rw [hone.refused error rfl, htwo.refused error rfl]
  | ok record =>
    obtain ⟨o, boxReads, ho, hreads, hboxes, hstops⟩ := hone.followed record rfl
    obtain ⟨o', boxReads', ho', hreads', hboxes', -⟩ := htwo.followed record rfl
    rw [ho, ho'] at hanswer
    obtain rfl := Except.ok.inj hanswer
    have hlength : (o.respell s).locals.length = o.locals.length := by
      have hle := hstops.length_le
      rw [h.localReads.length_eq] at hle
      simpa [ApplicationAnswer.respell, respellItems] using hle
    rw [hreads, hreads', hlength, accountReads_eq h, boxReads_eq h.boxKeys hboxes hboxes']

end Queries

/-! ## Queries and URIs -/

/-- **How keys are spelled does not matter to what is found.** When two URIs ask the same of one
application under keys that stand for the same bytes, one answer is the other with its own keys,
whatever works off the reads and however long they take. With one read at a time the reads are the
same too. -/
theorem resolveApplicationWith_respell {buffered again : Buffering Read}
    (hbuffered : IsBuffering buffered) (hagain : IsBuffering again) (config : Config)
    (client : Client) (polls : ℕ → Read → ℕ) {pairing : Pairing} {text₁ text₂ : String}
    {q₁ q₂ : Query} {r s : ApplicationRequest} (h₁ : Query.parse pairing text₁ = .ok q₁)
    (h₂ : Query.parse pairing text₂ = .ok q₂) (hid : q₁.id = q₂.id)
    (hr : q₁.request = .application r) (hs : q₂.request = .application s) (h : r.SameBytes s) :
    (resolveApplicationWith again config { client with polls := polls } q₂).answer =
        (resolveApplicationWith buffered config client q₁).answer.map (.respell s) ∧
      (config.pairing = pairing →
        (resolveUriWith again config { client with polls := polls } text₂).answer =
          (resolveUriWith buffered config client text₁).answer.map (.respell s)) ∧
      (config.maxReads ≤ 1 →
        (resolveApplicationWith again config { client with polls := polls } q₂).reads =
          (resolveApplicationWith buffered config client q₁).reads) := by
  have hw₁ : r.Writable := by
    have hw := Query.writable_of_parse h₁
    rwa [hr] at hw
  have hw₂ : s.Writable := by
    have hw := Query.writable_of_parse h₂
    rwa [hs] at hw
  have hanswer : (resolveApplicationWith again config { client with polls := polls } q₂).answer =
      (resolveApplicationWith buffered config client q₁).answer.map (.respell s) := by
    rw [resolveApplicationWith_answer hagain, resolveApplicationWith_answer hbuffered]
    -- an answer does not mention delays
    exact answerApplication_respell client hid hr hs hw₁ h
  refine ⟨hanswer, ?_, ?_⟩
  · rintro rfl
    rw [resolveUriWith, resolveUriWith, resolveUriOver_of_ok h₁, resolveUriOver_of_ok h₂,
      resolveOver_of_application hr, resolveOver_of_application hs]
    have hmap := congrArg (Except.map Answer.application) hanswer
    refine hmap.trans ?_
    simp only [Resolution.map, resolveApplicationWith]
    cases (resolveApplicationOver buffered config (.constant client) q₁).answer <;> rfl
  · intro hone
    have hlog :=
      applicationLog_resolveApplicationOver hbuffered hone (.constant client) hw₁ hr
    have hlog' := applicationLog_resolveApplicationOver hagain hone
      (.constant { client with polls := polls }) hw₂ hs
    rw [← hid] at hlog'
    exact hlog.reads_eq hlog' h hanswer

/-- Keys as they are written. -/
def plainKeys : ApplicationRequest :=
  ⟨["YQ", "Yg"], ["YQ"], [⟨"YQ", .allA⟩], false⟩

/-- Keys for the same bytes, with other bits at the end. -/
def oddKeys : ApplicationRequest :=
  ⟨["YR", "Yh"], ["YS"], [⟨"YT", .allA⟩], false⟩

/-- A URI with the keys as they are written. -/
def plainUri : String :=
  "algorand://app/7?box=YQ&box=Yg&global=YQ&local=YQ&algorandaddress=" ++ Address.allA.text

/-- A URI with the other keys, and with padding and escapes. -/
def oddUri : String :=
  "algorand://app/7?box=Y%52&box=Yh==&global=YS%3D%3D&local=%59T&algorandaddress=" ++
    Address.allA.text

/-- The same is found under the other keys, and the same is missing. -/
theorem resolveApplicationWith_respell_twofold :
    ∃ q₁ q₂ o, Query.parse .strict plainUri = .ok q₁ ∧ Query.parse .strict oddUri = .ok q₂ ∧
      q₁.request = .application plainKeys ∧ q₂.request = .application oddKeys ∧
      plainKeys.SameBytes oddKeys ∧
      (resolveUriWith Task.trace ⟨.strict, 4⟩ twofold oddUri).answer = .ok (.application o) ∧
      o.boxes = [.ok ⟨"YR", [1]⟩, .error (.absent "Yh")] ∧ o.global = [.ok ⟨"YS", .uint 1, none⟩] ∧
      o.locals = [.ok ⟨"YT", .allA, .uint 3, none⟩] := by
  have h₁ : Query.parse .strict plainUri = .ok ⟨⟨7⟩, .application plainKeys, plainUri⟩ := by
    decide +kernel
  have h₂ : Query.parse .strict oddUri = .ok ⟨⟨7⟩, .application oddKeys, oddUri⟩ := by
    decide +kernel
  have hsame : plainKeys.SameBytes oddKeys := by
    constructor <;> decide
  obtain ⟨-, huri, -⟩ := resolveApplicationWith_respell isBuffering_trace isBuffering_trace
    ⟨.strict, 4⟩ twofold twofold.polls h₁ h₂ rfl rfl rfl hsame
  have hfound : (resolveUriWith Task.trace ⟨.strict, 4⟩ twofold plainUri).answer =
      .ok (.application (answerItems twofold ⟨7⟩ plainKeys
        ⟨⟨7⟩, [⟨[97], .uint 1⟩, ⟨[97], .uint 2⟩], [], []⟩)) := by
    refine resolveUriWith_of_application h₁ rfl ?_
    rw [resolveApplicationWith_answer isBuffering_trace]
    exact answerApplication_of_ok rfl rfl
  have hdecode : Base64.UrlSafe.decode "YQ" = .ok [97] := rfl
  have hglobal : globalItem (.ofEntries [⟨[97], .uint 1⟩, ⟨[97], .uint 2⟩]) "YQ" =
      .ok ⟨"YQ", .uint 1, none⟩ := by
    rw [globalItem_of_decode hdecode, KeyedState.get?_ofEntries]
    rfl
  have hlocal : localResult twofold ⟨7⟩ ⟨"YQ", .allA⟩ = .ok ⟨"YQ", .allA, .uint 3, none⟩ := by
    rw [localResult_of_decode hdecode]
    have hstate := KeyedState.get?_ofEntries [⟨[97], .uint 3⟩] [97]
    simp only [localItem, twofold, AccountRecord.localState?, List.find?_cons_of_pos, decide_true,
      hstate]
    rfl
  rw [hfound] at huri
  refine ⟨_, _, _, h₁, h₂, rfl, rfl, hsame, huri rfl, ?_, ?_, ?_⟩
  · rfl
  · simp only [ApplicationAnswer.respell, answerItems, answerOf, plainKeys, List.map_cons, hglobal]
    rfl
  · simp only [ApplicationAnswer.respell, answerItems, answerOf, plainKeys, List.map_cons, hlocal]
    rfl

end LedgerUri
