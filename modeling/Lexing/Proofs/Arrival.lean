import Lexing.Delivery
import Lexing.Utf8.Encoding

/-!
# How a source arrives

A source may be given as a text, as bytes in UTF-8, or by a reader that delivers its bytes one
portion after the other. What is found in it is the same each time. A text is the same as its bytes
because it is decoded from them. A reader is the same as its bytes because they are decoded alike,
and not before the last of them is there: how they are cut into portions is forgotten by then, also where a portion
ends inside a character, and so is every interruption.

Only a failure shows. It is reported in place of everything else if it comes before the end of the
input, whether or not the bytes around it are UTF-8, and it is not reached if it comes later.
-/

namespace Lexing

/-! ## Texts and bytes -/

/-- The bytes of a text are those that the library encodes it with. -/
theorem Utf8.toList_toUTF8 (text : String) : text.toUTF8.data.toList = encode text := by
  show text.toByteArray.data.toList = _
  rw [← String.utf8Encode_toList]
  exact List.toList_data_toByteArray

/-- Bytes that encode a source are lexed as that source. -/
theorem lexBytes_of_decode {bytes : List UInt8} {source : String}
    (h : Utf8.decode bytes = .ok source) : lexBytes bytes = lexStrict source := by
  rw [lexBytes, sourceOfBytes, h]
  rfl

/-- Others are refused before any of them is lexed. -/
theorem lexBytes_of_fault {bytes : List UInt8} {fault : Utf8.Fault}
    (h : Utf8.decode bytes = .error fault) :
    lexBytes bytes = .error (.unreadable ("input is not UTF-8: " ++ fault.message)) := by
  rw [lexBytes, sourceOfBytes, h]
  rfl

theorem lexBytes_encode (text : String) : lexBytes (Utf8.encode text) = lexStrict text :=
  lexBytes_of_decode (Utf8.decode_encode text)

/-! ## Bytes and deliveries -/

namespace Delivery

/-- Whether the delivery says that the input is at its end. -/
def isEnd : Delivery → Bool
  | .portion bytes => bytes.isEmpty
  | .interruption | .failure _ => false

/-- The bytes of a delivery. -/
def bytes : Delivery → List UInt8
  | .portion bytes => bytes
  | .interruption | .failure _ => []

/-- The reason of a failure. -/
def reason? : Delivery → Option String
  | .failure reason => some reason
  | .portion _ | .interruption => none

/-- The deliveries before the end of the input. -/
def beforeEnd (deliveries : List Delivery) : List Delivery :=
  deliveries.takeWhile fun d => !d.isEnd

/-- The reason of the first failure before the end of the input. -/
def firstFailure? (deliveries : List Delivery) : Option String :=
  (beforeEnd deliveries).findSome? reason?

/-- All bytes before the end of the input. -/
def content (deliveries : List Delivery) : List UInt8 :=
  (beforeEnd deliveries).flatMap bytes

theorem beforeEnd_end {d : Delivery} (h : d.isEnd = true) (rest : List Delivery) :
    beforeEnd (d :: rest) = [] :=
  List.takeWhile_cons_of_neg (by rw [h]; decide)

theorem beforeEnd_cons {d : Delivery} (h : d.isEnd = false) (rest : List Delivery) :
    beforeEnd (d :: rest) = d :: beforeEnd rest :=
  List.takeWhile_cons_of_pos (by rw [h]; rfl)

theorem content_cons {d : Delivery} (h : d.isEnd = false) (rest : List Delivery) :
    content (d :: rest) = d.bytes ++ content rest := by
  rw [content, beforeEnd_cons h, List.flatMap_cons]
  rfl

theorem firstFailure?_cons {d : Delivery} (h : d.isEnd = false) (rest : List Delivery) :
    firstFailure? (d :: rest) = d.reason?.or (firstFailure? rest) := by
  rw [firstFailure?, beforeEnd_cons h, List.findSome?_cons]
  cases d.reason? with
  | some reason => rfl
  | none => rfl

end Delivery

open Delivery

/-- **Gathering finds the first failure, or else all bytes.** -/
theorem gather_eq (deliveries : List Delivery) :
    gather deliveries =
      match firstFailure? deliveries with
      | some reason => .error (.unreadable reason)
      | none => .ok (content deliveries) := by
  induction deliveries with
  | nil => rfl
  | cons d rest ih =>
      cases d with
      | portion bytes =>
          cases bytes with
          | nil =>
              rw [firstFailure?, content, beforeEnd_end rfl]
              rfl
          | cons byte bytes =>
              rw [firstFailure?_cons rfl, content_cons rfl, gather, ih]
              · -- bytes that are gathered before a failure are lost
                show _ = match firstFailure? rest with
                  | some reason => Except.error (Fault.unreadable reason)
                  | none => Except.ok (byte :: bytes ++ content rest)
                cases firstFailure? rest with
                | some reason => rfl
                | none => rfl
              · exact List.cons_ne_nil byte bytes
      | interruption =>
          rw [firstFailure?_cons rfl, content_cons rfl]
          exact ih
      | failure reason =>
          rw [firstFailure?_cons rfl]
          rfl

/-- The two ways to a source decode alike: what a reader delivered is the source of the same bytes, or
is refused for the same reason. -/
theorem sourceOfDeliveries_of_gather {deliveries : List Delivery} {bytes : List UInt8}
    (h : gather deliveries = .ok bytes) : sourceOfDeliveries deliveries = sourceOfBytes bytes := by
  rw [sourceOfDeliveries, sourceOfBytes, h]
  show (Utf8.decode bytes).mapError _ = _
  cases Utf8.decode bytes with
  | ok source => rfl
  | error fault => rfl

theorem lexDeliveries_of_failure {deliveries : List Delivery} {reason : String}
    (h : firstFailure? deliveries = some reason) :
    lexDeliveries deliveries = .error (.unreadable reason) := by
  rw [lexDeliveries, sourceOfDeliveries, gather_eq, h]
  rfl

theorem lexDeliveries_of_content {deliveries : List Delivery}
    (h : firstFailure? deliveries = none) :
    lexDeliveries deliveries = lexBytes (content deliveries) := by
  have hgather : gather deliveries = .ok (content deliveries) := by rw [gather_eq, h]
  rw [lexDeliveries, lexBytes, sourceOfDeliveries_of_gather hgather]

/-- A source that arrives in one portion is lexed strictly. -/
theorem lexDeliveries_encode (source : String) :
    lexDeliveries [.portion (Utf8.encode source)] = lexStrict source := by
  rw [← lexBytes_encode]
  cases Utf8.encode source with
  | nil => exact lexDeliveries_of_content rfl
  | cons byte bytes =>
      rw [lexDeliveries_of_content rfl, content_cons rfl]
      show lexBytes (byte :: bytes ++ []) = _
      rw [List.append_nil]

/-! ## All ways of giving a source -/

/-- **It makes no difference how a source arrives.** A text is lexed as its bytes are. A reader is
lexed as its bytes are, unless it fails before the end of the input: then its first failure is all
that is reported. So two readers that deliver the same bytes cannot be told apart. -/
theorem arrivals_agree :
    (∀ text : String, lexBytes text.toUTF8.data.toList = lexStrict text) ∧
      (∀ deliveries reason, firstFailure? deliveries = some reason →
        lexDeliveries deliveries = .error (.unreadable reason)) ∧
      (∀ deliveries, firstFailure? deliveries = none →
        lexDeliveries deliveries = lexBytes (content deliveries)) ∧
      ∀ ds es, firstFailure? ds = none → firstFailure? es = none → content ds = content es →
        lexDeliveries ds = lexDeliveries es := by
  refine ⟨fun text => ?_, fun _ _ => lexDeliveries_of_failure, fun _ => lexDeliveries_of_content,
    fun ds es hds hes hcontent => ?_⟩
  · rw [Utf8.toList_toUTF8, lexBytes_encode]
  · rw [lexDeliveries_of_content hds, lexDeliveries_of_content hes, hcontent]

/-- A character that is cut in two and interrupted, and failures before and after the end. -/
theorem arrivals_agree_cut :
    firstFailure? [.portion [0xff], .interruption, .failure "disk", .portion []] = some "disk" ∧
      lexDeliveries [.portion [0xff], .interruption, .failure "disk", .portion []] =
        .error (.unreadable "disk") ∧
      firstFailure? [.portion [0x61, 0xc3], .interruption, .portion [0xa9], .portion [],
        .failure "disk"] = none ∧
      firstFailure? [.portion [0x61, 0xc3, 0xa9]] = none ∧
      lexDeliveries [.portion [0x61, 0xc3], .interruption, .portion [0xa9], .portion [],
        .failure "disk"] = lexDeliveries [.portion [0x61, 0xc3, 0xa9]] ∧
      lexDeliveries [.portion [0x61, 0xc3, 0xa9]] = lexBytes "aé".toUTF8.data.toList ∧
      lexBytes "aé".toUTF8.data.toList = .error (.unrecognized ⟨"aé", ⟨1, 1, 2⟩⟩) := by
  obtain ⟨htext, hfailure, hcontent, hsame⟩ := arrivals_agree
  refine ⟨by decide, hfailure _ _ (by decide), by decide, by decide, ?_, ?_, ?_⟩
  · exact hsame _ _ (by decide) (by decide) (by decide)
  · exact hcontent _ (by decide)
  · have hlex : lex "aé" = ⟨[], [⟨"aé", ⟨1, 1, 2⟩⟩]⟩ := by decide +kernel
    rw [htext, lexStrict, hlex]
    rfl

end Lexing
