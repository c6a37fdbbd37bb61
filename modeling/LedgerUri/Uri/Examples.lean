/-!
# Example URIs

One URI for every form of query. Each can be read and follows the strict grammar.
-/

namespace LedgerUri.Uri

/-- URIs for trying things out. -/
def examples : List String :=
  ["algorand://app/2345?box=YWxnb3JvbmQ",
    "algorand://app/12345?global=Z2xvYmFsX2tleQ",
    "algorand://app/12345?local=bG9jYWxfa2V5&algorandaddress=" ++
      "ZZAF5ARA4MEC5PVDOP64JM5O5MQST63Q2KOY2FLYFLXXD3PFSNJJBYAFZM",
    "algorand://app/12345?tealcode",
    "algorand://app/12345?box=Ym94X2tleQ&global=Z2xvYmFsX2tleQ&tealcode",
    "algorand://asset/31566704?total&decimals&unitname&assetname",
    "algorand://asset/31566704?url&metadatahash",
    "algorand://asset/31566704?manager&reserve&freeze&clawback",
    "algorand://asset/31566704?frozen"]

end LedgerUri.Uri
