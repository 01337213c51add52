import TalerExchange.Schema
import Mathlib.Data.Vector.Basic

/-!
# Planchets

What the wallet and the exchange compute alike: the secrets of a fresh coin from a master secret, and
the blinded planchet from them. The primitives are functions of their arguments.

* `BlindedPlanchet`, `DenominationPub`, `BlindingInputs`: the data that is exchanged;
* `PlanchetCrypto`: the primitives;
* `denomBlind`, `planchetPrepare`: the planchet of a coin.
-/

namespace TalerExchange

/-- A byte string of fixed length. -/
abbrev Bytes (n : ℕ) := List.Vector UInt8 n

/-- `TALER_MAX_FRESH_COINS`. -/
def maxFreshCoins : ℕ := 256

/-- `TALER_CNC_KAPPA`. -/
def cncKappa : ℕ := 3

abbrev PlanchetMasterSecret := ℕ
abbrev BlindingSecret := ℕ
abbrev CoinPriv := ℕ

/-- `enum GNUNET_CRYPTO_BlindSignatureAlgorithm`. -/
inductive Cipher
  | rsa
  | cs
deriving DecidableEq, Repr

/-- `struct TALER_BlindedPlanchet`: a message of any length, or two curve points and a nonce. -/
inductive BlindedPlanchet
  | rsa (blindedMsg : List UInt8)
  | cs (c0 c1 nonce : Bytes 32)
deriving DecidableEq

/-- `blinded_message->cipher`. -/
def BlindedPlanchet.cipher : BlindedPlanchet → Cipher
  | .rsa _ => .rsa
  | .cs .. => .cs

/-- `struct TALER_DenominationPublicKey`. -/
structure DenominationPub where
  ageMask : ℕ
  cipher : Cipher
  bsignPubKey : ℕ
deriving DecidableEq, Repr

/-- `struct GNUNET_CRYPTO_BlindingInputValues`: nothing for RSA, two points for CS. -/
inductive BlindingInputs
  | rsa
  | cs (rPub : ℕ)
deriving DecidableEq, Repr

/-- The cipher of blinding inputs. -/
def BlindingInputs.cipher : BlindingInputs → Cipher
  | .rsa => .rsa
  | .cs _ => .cs

/-- The primitives that planchets are made with. `messageBlind` is
`GNUNET_CRYPTO_message_blind_to_sign`, which may fail; the message is the hash of the coin. -/
structure PlanchetCrypto where
  blindingSecret : PlanchetMasterSecret → BlindingInputs → BlindingSecret
  coinPriv : PlanchetMasterSecret → BlindingInputs → CoinPriv
  coinPub : CoinPriv → CoinPub
  coinPubHash : CoinPub → Option HashCode → HashCode
  messageBlind : DenominationPub → BlindingSecret → Option (Bytes 32) → HashCode → BlindingInputs →
    Option BlindedPlanchet

namespace PlanchetCrypto

variable (c : PlanchetCrypto)

/-- `TALER_denom_blind`. -/
def denomBlind (dk : DenominationPub) (bks : BlindingSecret) (nonce : Option (Bytes 32))
    (ach : Option HashCode) (pub : CoinPub) (alg : BlindingInputs) : Option BlindedPlanchet :=
  c.messageBlind dk bks nonce (c.coinPubHash pub ach) alg

/-- `TALER_planchet_prepare`. -/
def planchetPrepare (dk : DenominationPub) (alg : BlindingInputs) (bks : BlindingSecret)
    (nonce : Option (Bytes 32)) (priv : CoinPriv) (ach : Option HashCode) : Option BlindedPlanchet :=
  c.denomBlind dk bks nonce ach (c.coinPub priv) alg

end PlanchetCrypto

end TalerExchange
