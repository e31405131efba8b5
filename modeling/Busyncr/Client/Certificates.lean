import Busyncr.Core.Hashing
import Busyncr.Daemon.RegistryFiles
import Busyncr.Lib.Pem

/-!
Certificate fingerprints on both sides: what the daemon registers, what it
reads off a connection, and what the client computes from its saved PEM file.

The two programs each have a `pem_to_der` with a base64 decoder of its own.
-/

namespace Busyncr

namespace Daemon.Certificates

def alphabet : Bytes :=
  Base64.asciiBytes "ABCDEFGHIJKLMNOPQRSTUVWXYZabcdefghijklmnopqrstuvwxyz0123456789+/"

def boundaryMarker : List Char := "-----".toList

/-- `pem_to_der` of the daemon. -/
def pemToDer (pem : String) : Option Bytes := Pem.toDer alphabet boundaryMarker pem.toList

/-- `to_hex` of a digest. -/
def toHex (digest : Vector UInt8 32) : String := String.ofList (RegistryFiles.hex digest.toList)

/-- The fingerprint of the first certificate the peer presented. -/
def peerFingerprint (blake3 : Blake3) (peerCerts : Option (List Bytes)) : Option String :=
  peerCerts.bind fun certs => certs.head?.map fun cert => toHex (blake3.hash cert)

/-- A certificate as the library signs it. -/
structure Certificate where
  der : Bytes
  pem : String

/-- The library writes a certificate as one block. -/
def Certificate.OneBlock (cert : Certificate) : Prop := Pem.IsBlock cert.der cert.pem.toList

structure IssuedCert where
  certPem : String
  name : String
  fingerprint : String

/-- What `enroll_client` returns once the certificate is registered. -/
def issuedCert (blake3 : Blake3) (name : String) (cert : Certificate) : IssuedCert :=
  ⟨cert.pem, name, toHex (blake3.hash cert.der)⟩

end Daemon.Certificates

namespace Client.Certificates

inductive CertError where
  | io
  | badResponse (reason : String)
deriving DecidableEq

def alphabet : Bytes :=
  Base64.asciiBytes "ABCDEFGHIJKLMNOPQRSTUVWXYZabcdefghijklmnopqrstuvwxyz0123456789+/"

def boundaryMarker : List Char := "-----".toList

/-- `pem_to_der` of the client. -/
def pemToDer (pem : String) : Option Bytes := Pem.toDer alphabet boundaryMarker pem.toList

/-- The certificate file of the state directory, as `save_identity` writes
it. -/
def certFile (certPem : String) : Bytes := utf8Bytes certPem

/-- `cert_fingerprint` from the certificate file, if there is one. -/
def certFingerprint (blake3 : Blake3) (file : Option Bytes) : Except CertError String :=
  match file.bind fromUtf8? with
  | none => .error .io
  | some pem =>
      match pemToDer pem with
      | none => .error (.badResponse "client certificate is not valid PEM")
      | some der => .ok (Daemon.Certificates.toHex (blake3.hash der))

end Client.Certificates

open Daemon Daemon.Certificates Client.Certificates

/-- Both decoders recover a block and agree on every text; the client's
fingerprint of its saved certificate is the one registered for it and the one
read off its connections. -/
theorem certificate_fingerprints_agree (blake3 : Blake3) :
    (∀ (der : Bytes) (pem : String), Pem.IsBlock der pem.toList →
      Daemon.Certificates.pemToDer pem = some der ∧
        Client.Certificates.pemToDer pem = some der) ∧
    (∀ pem : String, Daemon.Certificates.pemToDer pem = Client.Certificates.pemToDer pem) ∧
    ∀ (cert : Certificate) (name : String) (chain : List Bytes)
      (found : List (RegistryFiles.FileName × RegistryFiles.StoredClient)),
      cert.OneBlock →
      RegistryFiles.decision found (.enrollClient name (blake3.hash cert.der)) ≠ .nameTaken name →
        ∃ fingerprint,
          certFingerprint blake3 (some (certFile (issuedCert blake3 name cert).certPem)) =
            .ok fingerprint ∧
          RegistryFiles.decision found (.enrollClient name (blake3.hash cert.der)) =
            .writing [(RegistryFiles.clientPath fingerprint.toList, ⟨name, fingerprint, false⟩)] ∧
          (issuedCert blake3 name cert).fingerprint = fingerprint ∧
          peerFingerprint blake3 (some (cert.der :: chain)) = some fingerprint := by
  have daemonDecodes : ∀ (der : Bytes) (pem : String), Pem.IsBlock der pem.toList →
      Daemon.Certificates.pemToDer pem = some der := fun der pem block =>
    Pem.toDer_of_block block
  have clientDecodes : ∀ (der : Bytes) (pem : String), Pem.IsBlock der pem.toList →
      Client.Certificates.pemToDer pem = some der := fun der pem block =>
    Pem.toDer_of_block block
  refine ⟨fun der pem block => ⟨daemonDecodes der pem block, clientDecodes der pem block⟩,
    fun pem => rfl, ?_⟩
  intro cert name chain found block free
  refine ⟨toHex (blake3.hash cert.der), ?_, ?_, rfl, rfl⟩
  · simp only [certFingerprint, certFile, issuedCert, Option.bind_some, fromUtf8?_utf8Bytes,
      clientDecodes cert.der cert.pem block]
  · simp only [RegistryFiles.decision] at free ⊢
    split
    next taken =>
      rw [if_pos taken] at free
      exact absurd rfl free
    next => simp [toHex]

/-- BLAKE3 where the only input hashed is `Man` with an `M` behind it. -/
def wrappedBlake3 : Blake3 where
  hash _ := #v[0xac, 0xc5, 0xf1, 0x74, 0xe6, 0xd1, 0xdf, 0x16, 0x88, 0x94, 0x92, 0xcf,
    0x5e, 0xac, 0xd8, 0x3c, 0xee, 0x2c, 0x99, 0x56, 0xb5, 0xa8, 0x1f, 0x87,
    0x1f, 0xeb, 0xf0, 0xab, 0xf1, 0x8f, 0xb4, 0xad]
  keyedHash := Blake3.onEmpty.keyedHash

/-- These bytes as a block of three body lines that end in CRLF. -/
def wrappedCert : Certificate where
  der := [0x4d, 0x61, 0x6e, 0x4d]
  pem := "-----BEGIN CERTIFICATE-----\r\nTWF\r\nuTQ\r\n==\r\n-----END CERTIFICATE-----\r\n"

def wrappedBody : List (List Char × Pem.LineEnd) :=
  [("TWF".toList, .crlf), ("uTQ".toList, .crlf), ("==".toList, .crlf)]

theorem wrappedCert_oneBlock : wrappedCert.OneBlock := by
  have text : wrappedCert.pem.toList =
      "-----BEGIN CERTIFICATE-----".toList ++ Pem.LineEnd.crlf.chars ++
        (wrappedBody.flatMap fun line => line.1 ++ line.2.chars) ++
        ("-----END CERTIFICATE-----".toList ++
          ((some Pem.LineEnd.crlf).map Pem.LineEnd.chars).getD []) := by
    decide +kernel
  rw [Certificate.OneBlock, text]
  constructor
  case opened => exact ⟨by decide, by decide⟩
  case closed => exact ⟨by decide, by decide⟩
  case widths => simp [wrappedBody]
  case encoded => decide +kernel

theorem wrapped_certificate_fingerprints_agree :
    Daemon.Certificates.pemToDer wrappedCert.pem = some [0x4d, 0x61, 0x6e, 0x4d] ∧
      Client.Certificates.pemToDer wrappedCert.pem = some [0x4d, 0x61, 0x6e, 0x4d] ∧
      ∃ fingerprint,
        certFingerprint wrappedBlake3
            (some (certFile (issuedCert wrappedBlake3 "laptop" wrappedCert).certPem)) =
          .ok fingerprint ∧
        RegistryFiles.decision [] (.enrollClient "laptop" (wrappedBlake3.hash wrappedCert.der)) =
          .writing
            [(RegistryFiles.clientPath fingerprint.toList, ⟨"laptop", fingerprint, false⟩)] ∧
        (issuedCert wrappedBlake3 "laptop" wrappedCert).fingerprint = fingerprint ∧
        peerFingerprint wrappedBlake3 (some [wrappedCert.der]) = some fingerprint := by
  obtain ⟨decode, _, registered⟩ := certificate_fingerprints_agree wrappedBlake3
  obtain ⟨byDaemon, byClient⟩ := decode wrappedCert.der wrappedCert.pem wrappedCert_oneBlock
  refine ⟨byDaemon, byClient, ?_⟩
  exact registered wrappedCert "laptop" [] [] wrappedCert_oneBlock (by decide)

end Busyncr
