import Depot.Proofs.Objects.SignedUrl
import Depot.Proofs.Service.ChunkBody
import Depot.Proofs.Web.Form
import Depot.Web.Server
import Mathlib.Data.List.TakeWhile

/-!
# Objects behind signed URLs

- `blobTarget`: the path and the query of a signed URL, behind its base.
- A request for the target of a stored block's URL is answered with the block until the URL expires, whoever asks
  (`respond_blob`).
-/

namespace Depot.Web

open Content Objects Service Text Time

variable {real : Path} {c : Catalog} {f : FileStore} {h : BlockHash} {expires : Int} {s : Stores} {α : Type}

/-- The target of a request for an object: what its URL has behind the base. -/
def blobTarget (signer : UrlSigner) (key : String) (expires : Int) : String :=
  s!"{blobRoute}/{Percent.encode UrlSigner.isPlain key}?expires={expires}&signature={signer.signature key expires}"

theorem url_eq (signer : UrlSigner) (key : String) (expires : Int) :
    signer.url key expires = signer.baseUrl ++ blobTarget signer key expires := by
  simp [UrlSigner.url, blobTarget, String.append_assoc, toString]

/-! ### The target of a block -/

/-- The characters of the keys of blocks. -/
def keyAlphabet : List Char := '/' :: "blocks".toList ++ Hex.alphabet

theorem mem_keyAlphabet (h : BlockHash) {c : Char} (hc : c ∈ h.objectKey.toList) : c ∈ keyAlphabet := by
  have hhex : ∀ c ∈ h.hex.toList, c ∈ keyAlphabet := fun c hc =>
    List.mem_append_right _ (mem_alphabet_of_mem_hex hc)
  rw [toList_objectKey] at hc
  simp only [List.mem_append, List.mem_cons] at hc
  rcases hc with hblocks | rfl | hfirst | rfl | hsecond | rfl | hlast
  · exact List.mem_append_left _ (List.mem_cons_of_mem _ hblocks)
  · decide
  · exact hhex c (List.mem_of_mem_take hfirst)
  · decide
  · exact hhex c (List.mem_of_mem_drop (List.mem_of_mem_take hsecond))
  · decide
  · exact hhex c hlast

/-- The characters of numbers and signatures. -/
def valueAlphabet : List Char := '-' :: Hex.alphabet

theorem mem_alphabet_of_isDigit {c : Char} (hc : c.isDigit) : c ∈ Hex.alphabet := by
  have hall : ∀ i : Fin 10, Char.ofNat (48 + i.val) ∈ Hex.alphabet := by decide
  rw [Char.isDigit_iff_toNat] at hc
  simp only [Char.reduceToNat] at hc
  have hmem := hall ⟨c.toNat - 48, by omega⟩
  rwa [show 48 + (c.toNat - 48) = c.toNat by omega, Char.ofNat_toNat] at hmem

theorem mem_valueAlphabet_of_int {n : Int} {c : Char} (hc : c ∈ (toString n).toList) : c ∈ valueAlphabet := by
  rcases Decimal.mem_repr_int hc with hdigit | rfl
  · exact List.mem_cons_of_mem _ (mem_alphabet_of_isDigit hdigit)
  · exact List.mem_cons_self

theorem mem_alphabet_of_signature {signer : UrlSigner} {key : String} {c : Char}
    (hc : c ∈ (signer.signature key expires).toList) : c ∈ Hex.alphabet := Hex.mem_alphabet_of_mem_encode hc

/-- The names in front of a key. -/
def routeChars : List Char := ['/', 'v', '1', '/', 'b', 'l', 'o', 'b', 's', '/']

/-- The path of a block. -/
def blobPath (h : BlockHash) : List Char := routeChars ++ h.objectKey.toList

/-- The names of the fields. -/
def expiresChars : List Char := ['e', 'x', 'p', 'i', 'r', 'e', 's']

def signatureChars : List Char := ['s', 'i', 'g', 'n', 'a', 't', 'u', 'r', 'e']

/-- The query of a block. -/
def blobQuery (signer : UrlSigner) (h : BlockHash) (expires : Int) : List Char :=
  expiresChars ++ '=' :: (toString expires).toList ++
    '&' :: (signatureChars ++ '=' :: (signer.signature h.objectKey expires).toList)

theorem encode_objectKey (h : BlockHash) : Percent.encode UrlSigner.isPlain h.objectKey = h.objectKey := by
  have hplain : keyAlphabet.all fun c => c.toNat < 128 ∧ UrlSigner.isPlain c.toNat.toUInt8 := by decide
  have hencode := encode_of_plain fun c hc => of_decide_eq_true (List.all_eq_true.mp hplain c (mem_keyAlphabet h hc))
  rwa [String.ofList_toList] at hencode

theorem toList_blobTarget (signer : UrlSigner) (h : BlockHash) (expires : Int) :
    (blobTarget signer h.objectKey expires).toList = blobPath h ++ '?' :: blobQuery signer h expires := by
  rw [blobTarget, encode_objectKey]
  simp [blobPath, blobQuery, routeChars, expiresChars, signatureChars, blobRoute, toString]

theorem not_mem_blobPath {d : Char} (hd : d ∉ routeChars ++ keyAlphabet) : d ∉ blobPath h := by
  rw [List.mem_append, not_or] at hd
  rw [blobPath, List.mem_append, not_or]
  exact ⟨hd.1, fun hmem => hd.2 (mem_keyAlphabet h hmem)⟩

theorem not_mem_blobQuery {signer : UrlSigner} {d : Char}
    (hd : d ∉ expiresChars ++ signatureChars ++ '=' :: '&' :: valueAlphabet) :
    d ∉ blobQuery signer h expires := by
  simp only [List.mem_append, List.mem_cons, not_or] at hd
  obtain ⟨⟨hexpires, hsignature⟩, hequals, hamp, hvalue⟩ := hd
  simp only [blobQuery, List.mem_append, List.mem_cons, not_or]
  exact ⟨⟨hexpires, hequals, fun hmem => hvalue (mem_valueAlphabet_of_int hmem)⟩, hamp, hsignature, hequals,
    fun hmem => hvalue (List.mem_cons_of_mem _ (mem_alphabet_of_signature hmem))⟩

theorem ofTarget_blobTarget (signer : UrlSigner) (h : BlockHash) (expires : Int) (method : Method)
    (headers : List (String × List UInt8)) (body : List Frame) :
    Request.ofTarget method (blobTarget signer h.objectKey expires) headers body =
      { method, headers, body
        path := String.ofList (blobPath h)
        query := String.ofList (blobQuery signer h expires) } := by
  have hhash : ∀ c ∈ blobPath h ++ '?' :: blobQuery signer h expires, (c != '#') = true := by
    intro c hc
    apply bne_iff_ne.mpr
    rintro rfl
    rcases List.mem_append.mp hc with hpath | hquery
    · exact not_mem_blobPath (by decide) hpath
    · rcases List.mem_cons.mp hquery with heq | hquery
      · exact absurd heq (by decide)
      · exact not_mem_blobQuery (by decide) hquery
  have hmark : ∀ c ∈ blobPath h, (c != '?') = true := fun c hc => bne_iff_ne.mpr fun heq =>
    not_mem_blobPath (d := '?') (by decide) (heq ▸ hc)
  have hwhole : (blobTarget signer h.objectKey expires).toList.takeWhile (· != '#') =
      blobPath h ++ '?' :: blobQuery signer h expires := by
    rw [toList_blobTarget]
    exact List.takeWhile_eq_self_iff.mpr hhash
  have hlocal : Request.localPart (blobPath h ++ '?' :: blobQuery signer h expires) =
      blobPath h ++ '?' :: blobQuery signer h expires := rfl
  simp only [Request.ofTarget, hwhole, hlocal]
  rw [List.takeWhile_append_of_pos hmark, List.dropWhile_append_of_pos hmark]
  simp

theorem ofPath?_blobPath (h : BlockHash) :
    Resource.ofPath? (String.ofList (blobPath h)) = some (.blob h.objectKey) := by
  have hparts : (h.objectKey.toList.splitOn '/').map String.ofList = _ := parts_objectKey h
  have hpath : blobPath h =
      [] ++ '/' :: (['v', '1'] ++ '/' :: (['b', 'l', 'o', 'b', 's'] ++ '/' :: h.objectKey.toList)) := rfl
  have hjoin : "/".intercalate ["blocks", String.ofList (h.hex.toList.take 2),
      String.ofList ((h.hex.toList.drop 2).take 2), h.hex] = h.objectKey := by
    rw [← String.toList_inj, toList_objectKey]
    simp
  have hne : h.objectKey.isEmpty = false := by
    rw [Bool.eq_false_iff, ne_eq, String.isEmpty_iff, ← String.toList_inj, toList_objectKey]
    simp
  rw [Resource.ofPath?, String.toList_ofList, hpath, List.splitOn_append_cons_of_beq _ _ (by simp),
    List.splitOn_append_cons_of_beq _ _ (by simp), List.splitOn_append_cons_of_beq _ _ (by simp),
    List.splitOn_nil, List.splitOn_eq_singleton (by decide), List.splitOn_eq_singleton (by decide)]
  simp only [List.map_append, hparts]
  simp [Resource.ofParts?, Resource.named, hjoin, hne]

theorem parse_blobQuery (signer : UrlSigner) (h : BlockHash) (expires : Int) :
    Form.parse (String.ofList (blobQuery signer h expires)) =
      [("expires", toString expires), ("signature", signer.signature h.objectKey expires)] := by
  have hvalues : PlainText valueAlphabet := plainText_of_all (by decide)
  have hexpires : PlainText expiresChars := plainText_of_all (by decide)
  have hsignature : PlainText signatureChars := plainText_of_all (by decide)
  rw [blobQuery, parse_two hexpires (plainText_of_subset (fun _ => mem_valueAlphabet_of_int) hvalues) hsignature
    (plainText_of_subset (fun _ hc => List.mem_cons_of_mem _ (mem_alphabet_of_signature hc)) hvalues)]
  simp [expiresChars, signatureChars]

theorem text_objectKey (h : BlockHash) : Parameter.text h.objectKey = .ok h.objectKey := by
  have hall : keyAlphabet.all fun c => c.toNat < 128 ∧ c ≠ '%' := by decide
  have hascii : ∀ c ∈ h.objectKey.toList, c.toNat < 128 ∧ c ≠ '%' := fun c hc =>
    of_decide_eq_true (List.all_eq_true.mp hall c (mem_keyAlphabet h hc))
  have hchars : ∀ c ∈ h.objectKey.toList, c.toNat < 128 := fun c hc => (hascii c hc).1
  have hbytes : utf8 h.objectKey = asciiBytes h.objectKey.toList := by
    have := utf8_ofList hchars
    rwa [String.ofList_toList] at this
  have hpercent : 37 ∉ utf8 h.objectKey := by
    intro hmem
    rw [hbytes] at hmem
    exact (hascii _ ((mem_asciiBytes (d := '%') hchars (by decide)).mp hmem)).2 rfl
  rw [Parameter.text, decode_of_not_mem hpercent, ofUtf8?_utf8]

/-! ### The answer -/

theorem perform_ofExcept (x : Except Failure α) (s : Stores) : perform (Action.ofExcept x) s = (x, s) := by
  cases x <;> rfl

theorem perform_objectsFiles {r : Objects.Request} {reply : r.Reply} {next : FileStore}
    (hanswer : f.answer r = (.ok reply, next)) :
    perform (Action.objects r) ⟨c, .files f⟩ = (.ok reply, ⟨c, .files next⟩) := by
  have hattempt : perform (Action.attempt (.objects r)) ⟨c, .files f⟩ = (.ok (.ok reply), ⟨c, .files next⟩) := by
    have hcall : perform (Action.attempt (.objects r)) ⟨c, .files f⟩ =
        (.ok (Stores.answer (.objects r) ⟨c, .files f⟩).1, (Stores.answer (.objects r) ⟨c, .files f⟩).2) := rfl
    rw [hcall]
    simp only [Stores.answer, ObjectStore.answer, hanswer]
  rw [Action.objects, perform_bind_ok hattempt]
  rfl

theorem perform_authenticate_none {r : Request} (hanonymous : r.headers.lookup "authorization" = none) (now : DateTime)
    (s : Stores) : perform (authenticate r now) s = (.ok none, s) := by
  have hheader : r.header? "authorization" = none := by
    rw [Request.header?, hanonymous]
    rfl
  have hbearer : bearer? r = none := by
    rw [bearer?, hheader]
    rfl
  rw [authenticate, hbearer]
  rfl

theorem verify_signature (signer : UrlSigner) (key : String) {now : DateTime} (hnow : now.unixSeconds ≤ expires) :
    signer.verify key expires (signer.signature key expires) now = .ok () := by
  rw [UrlSigner.verify_eq rfl, if_pos hnow]

section Blob

variable {data : List UInt8} {now : DateTime} {r : Request}

theorem perform_getBlob (hf : BlockFiles f real) (hobject : f.object? real h = some data)
    (hrange : Int64.minValue.toInt ≤ expires ∧ expires ≤ Int64.maxValue.toInt) (hnow : now.unixSeconds ≤ expires)
    (hquery : r.query = String.ofList (blobQuery f.signer h expires)) :
    perform (Action.getBlob now r h.objectKey) ⟨c, .files f⟩ =
      (.ok (.blob data.length ⟨data, none⟩), ⟨c, .files f⟩) := by
  have htext : perform (Action.ofExcept (Parameter.text h.objectKey)) ⟨c, .files f⟩ =
      (.ok h.objectKey, ⟨c, .files f⟩) := by
    rw [perform_ofExcept, text_objectKey]
  have hexpires : perform (Action.ofExcept ((Form.parse r.query).required "expires" Decimal.int64?)) ⟨c, .files f⟩ =
      (.ok expires, ⟨c, .files f⟩) := by
    rw [perform_ofExcept, hquery, parse_blobQuery]
    exact congrArg (·, _) (required_eq (by simp) (Decimal.int64?_toString hrange))
  have hsignature : perform (Action.ofExcept ((Form.parse r.query).required "signature" some)) ⟨c, .files f⟩ =
      (.ok (f.signer.signature h.objectKey expires), ⟨c, .files f⟩) := by
    rw [perform_ofExcept, hquery, parse_blobQuery]
    exact congrArg (·, _) (required_eq (by simp) rfl)
  have hverify :
      f.answer (.verify h.objectKey expires (f.signer.signature h.objectKey expires) now) = (.ok (), f) := by
    rw [FileStore.answer, verify_signature f.signer h.objectKey hnow]
  have hhead : f.answer (.head h.objectKey) = (.ok ⟨data.length, true, none⟩, f) := by
    rw [FileStore.answer, hf.head_eq, hobject]
  have hstream : f.answer (.stream h.objectKey) = (.ok ⟨data, none⟩, f) := by
    rw [FileStore.answer, hf.stream_eq, hobject]
  rw [Action.getBlob, perform_bind_ok htext]
  dsimp only
  rw [perform_bind_ok hexpires, perform_bind_ok hsignature, perform_bind_ok (perform_objectsFiles hverify),
    perform_bind_ok (perform_objectsFiles hhead), perform_bind_ok (perform_objectsFiles hstream)]
  rfl

/-- **The URL of a stored block answers the block until it expires, to whoever asks.** -/
theorem respond_blob (hf : BlockFiles f real) (hobject : f.object? real h = some data)
    (hrange : Int64.minValue.toInt ≤ expires ∧ expires ≤ Int64.maxValue.toInt) {clock : Clock}
    (hnow : (clock 1).unixSeconds ≤ expires) {headers : List (String × List UInt8)}
    (hanonymous : headers.lookup "authorization" = none) (body : List Frame) (server : Server) (tally : Tally)
    (fresh : Fresh) :
    ∃ counts, Task.run Stores.answer (server.respond tally clock fresh
        (.ofTarget .get (blobTarget f.signer h.objectKey expires) headers body)) ⟨c, .files f⟩ =
      ((.answered ⟨200, some "application/octet-stream", some data.length, [], .stream ⟨data, none⟩⟩, counts),
        ⟨c, .files f⟩) := by
  rw [ofTarget_blobTarget]
  generalize hr : (⟨.get, String.ofList (blobPath h), String.ofList (blobQuery f.signer h expires), headers, body⟩ :
    Request) = r
  have hresource : server.resource? r.path = some (.blob h.objectKey) := by
    rw [← hr, Server.resource?, ofPath?_blobPath]
  have hmethod : r.method = .get := by rw [← hr]
  have hhandle : perform (server.handle tally clock fresh r) ⟨c, .files f⟩ =
      (.ok (.blob data.length ⟨data, none⟩), ⟨c, .files f⟩) := by
    rw [Server.handle, perform_bind_ok (perform_authenticate_none (by rw [← hr]; exact hanonymous) _ _), hresource,
      hmethod]
    exact perform_getBlob hf hobject hrange hnow (by rw [← hr])
  have hfinish : server.finish r (respondTo (.ok (.blob data.length ⟨data, none⟩))) =
      ⟨200, some "application/octet-stream", some data.length, [], .stream ⟨data, none⟩⟩ := by
    simp [Server.finish, hresource, hmethod, Resource.methods, respondTo, Reply.response]
  rw [perform] at hhandle
  rw [Server.respond, run_bind, hhandle]
  dsimp only
  rw [hfinish]
  exact ⟨_, rfl⟩

end Blob

end Depot.Web
