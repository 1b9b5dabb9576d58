/-!
Code pages: encodings with one byte for every character. Most agree with ASCII in their lower half,
so that a page lists its characters from some byte on; the bytes before it stand for themselves.
-/
namespace LeadSheet.Text

/-- A code page: its name and the other names it is known by, the first byte that is listed, and
the characters of the bytes from there on. -/
structure CodePage where
  name : String
  aliases : List String
  first : Nat
  characters : String
  deriving DecidableEq, Repr

namespace CodePage

/-- What stands in a page for a byte that has no character. -/
def unassigned : Char := '\ufffd'

/-- The character of a byte, given the characters of the page. -/
def character? (page : CodePage) (characters : Array Char) (b : UInt8) : Option Char :=
  if b.toNat < page.first then some (Char.ofNat b.toNat)
  else characters[b.toNat - page.first]?.filter (· ≠ unassigned)

/-- The characters that bytes stand for, if all of them have one. -/
def decode? (page : CodePage) (bytes : List UInt8) : Option (List Char) :=
  let characters := page.characters.toList.toArray
  bytes.mapM (page.character? characters)

def cp437 : CodePage where
  name := "cp437"
  aliases := ["437", "cspc8codepage437", "ibm437"]
  first := 0x80
  characters :=
    "ÇüéâäàåçêëèïîìÄÅÉæÆôöòûùÿÖÜ¢£¥₧ƒáíóúñÑªº¿\u2310¬½¼¡«»\u2591\u2592\u2593\u2502\u2524\u2561" ++
    "\u2562\u2556\u2555\u2563\u2551\u2557\u255d\u255c\u255b\u2510\u2514\u2534\u252c\u251c\u2500" ++
    "\u253c\u255e\u255f\u255a\u2554\u2569\u2566\u2560\u2550\u256c\u2567\u2568\u2564\u2565\u2559" ++
    "\u2558\u2552\u2553\u256b\u256a\u2518\u250c\u2588\u2584\u258c\u2590\u2580αßΓπΣσµτΦΘΩδ∞φε∩≡±≥" ++
    "≤⌠⌡÷≈\u00b0∙·√ⁿ²\u25a0\u00a0"

def cp720 : CodePage where
  name := "cp720"
  aliases := []
  first := 0x80
  characters :=
    "\x80\x81éâ\x84à\x86çêëèïî\x8d\x8e\x8f\x90\u0651\u0652ô¤\u0640ûù\u0621\u0622\u0623\u0624£" ++
    "\u0625\u0626\u0627\u0628\u0629\u062a\u062b\u062c\u062d\u062e\u062f\u0630\u0631\u0632\u0633" ++
    "\u0634\u0635«»\u2591\u2592\u2593\u2502\u2524\u2561\u2562\u2556\u2555\u2563\u2551\u2557" ++
    "\u255d\u255c\u255b\u2510\u2514\u2534\u252c\u251c\u2500\u253c\u255e\u255f\u255a\u2554\u2569" ++
    "\u2566\u2560\u2550\u256c\u2567\u2568\u2564\u2565\u2559\u2558\u2552\u2553\u256b\u256a\u2518" ++
    "\u250c\u2588\u2584\u258c\u2590\u2580\u0636\u0637\u0638\u0639\u063a\u0641µ\u0642\u0643\u0644" ++
    "\u0645\u0646\u0647\u0648\u0649\u064a≡\u064b\u064c\u064d\u064e\u064f\u0650≈\u00b0∙·√ⁿ²\u25a0" ++
    "\u00a0"

def cp737 : CodePage where
  name := "cp737"
  aliases := []
  first := 0x80
  characters :=
    "ΑΒΓΔΕΖΗΘΙΚΛΜΝΞΟΠΡΣΤΥΦΧΨΩαβγδεζηθικλμνξοπρσςτυφχψ\u2591\u2592\u2593\u2502\u2524\u2561\u2562" ++
    "\u2556\u2555\u2563\u2551\u2557\u255d\u255c\u255b\u2510\u2514\u2534\u252c\u251c\u2500\u253c" ++
    "\u255e\u255f\u255a\u2554\u2569\u2566\u2560\u2550\u256c\u2567\u2568\u2564\u2565\u2559\u2558" ++
    "\u2552\u2553\u256b\u256a\u2518\u250c\u2588\u2584\u258c\u2590\u2580ωάέήϊίόύϋώΆΈΉΊΌΎΏ±≥≤ΪΫ÷≈" ++
    "\u00b0∙·√ⁿ²\u25a0\u00a0"

def cp775 : CodePage where
  name := "cp775"
  aliases := ["775", "cspc775baltic", "ibm775"]
  first := 0x80
  characters :=
    "ĆüéāäģåćłēŖŗīŹÄÅÉæÆōöĢ¢ŚśÖÜø£Ø×¤ĀĪóŻżź”\u00a6\u00a9\u00ae¬½¼Ł«»\u2591\u2592\u2593\u2502" ++
    "\u2524ĄČĘĖ\u2563\u2551\u2557\u255dĮŠ\u2510\u2514\u2534\u252c\u251c\u2500\u253cŲŪ\u255a" ++
    "\u2554\u2569\u2566\u2560\u2550\u256cŽąčęėįšųūž\u2518\u250c\u2588\u2584\u258c\u2590\u2580ÓßŌ" ++
    "ŃõÕµńĶķĻļņĒŅ’\u00ad±“¾¶§÷„\u00b0∙·¹³²\u25a0\u00a0"

def cp850 : CodePage where
  name := "cp850"
  aliases := ["850", "cspc850multilingual", "ibm850"]
  first := 0x80
  characters :=
    "ÇüéâäàåçêëèïîìÄÅÉæÆôöòûùÿÖÜø£Ø×ƒáíóúñÑªº¿\u00ae¬½¼¡«»\u2591\u2592\u2593\u2502\u2524ÁÂÀ" ++
    "\u00a9\u2563\u2551\u2557\u255d¢¥\u2510\u2514\u2534\u252c\u251c\u2500\u253cãÃ\u255a\u2554" ++
    "\u2569\u2566\u2560\u2550\u256c¤ðÐÊËÈıÍÎÏ\u2518\u250c\u2588\u2584\u00a6Ì\u2580ÓßÔÒõÕµþÞÚÛÙýÝ" ++
    "¯´\u00ad±‗¾¶§÷¸\u00b0¨·¹³²\u25a0\u00a0"

def cp852 : CodePage where
  name := "cp852"
  aliases := ["852", "cspcp852", "ibm852"]
  first := 0x80
  characters :=
    "ÇüéâäůćçłëŐőîŹÄĆÉĹĺôöĽľŚśÖÜŤťŁ×čáíóúĄąŽžĘę¬źČş«»\u2591\u2592\u2593\u2502\u2524ÁÂĚŞ\u2563" ++
    "\u2551\u2557\u255dŻż\u2510\u2514\u2534\u252c\u251c\u2500\u253cĂă\u255a\u2554\u2569\u2566" ++
    "\u2560\u2550\u256c¤đĐĎËďŇÍÎě\u2518\u250c\u2588\u2584ŢŮ\u2580ÓßÔŃńňŠšŔÚŕŰýÝţ´\u00ad˝˛ˇ˘§÷¸" ++
    "\u00b0¨˙űŘř\u25a0\u00a0"

def cp855 : CodePage where
  name := "cp855"
  aliases := ["855", "csibm855", "ibm855"]
  first := 0x80
  characters :=
    "ђЂѓЃёЁєЄѕЅіІїЇјЈљЉњЊћЋќЌўЎџЏюЮъЪаАбБцЦдДеЕфФгГ«»\u2591\u2592\u2593\u2502\u2524хХиИ\u2563" ++
    "\u2551\u2557\u255dйЙ\u2510\u2514\u2534\u252c\u251c\u2500\u253cкК\u255a\u2554\u2569\u2566" ++
    "\u2560\u2550\u256c¤лЛмМнНоОп\u2518\u250c\u2588\u2584Пя\u2580ЯрРсСтТуУжЖвВьЬ\u2116\u00adыЫзЗ" ++
    "шШэЭщЩчЧ§\u25a0\u00a0"

def cp856 : CodePage where
  name := "cp856"
  aliases := []
  first := 0x80
  characters :=
    "\u05d0\u05d1\u05d2\u05d3\u05d4\u05d5\u05d6\u05d7\u05d8\u05d9\u05da\u05db\u05dc\u05dd\u05de" ++
    "\u05df\u05e0\u05e1\u05e2\u05e3\u05e4\u05e5\u05e6\u05e7\u05e8\u05e9\u05ea\ufffd£\ufffd×" ++
    "\ufffd\ufffd\ufffd\ufffd\ufffd\ufffd\ufffd\ufffd\ufffd\ufffd\u00ae¬½¼\ufffd«»\u2591\u2592" ++
    "\u2593\u2502\u2524\ufffd\ufffd\ufffd\u00a9\u2563\u2551\u2557\u255d¢¥\u2510\u2514\u2534" ++
    "\u252c\u251c\u2500\u253c\ufffd\ufffd\u255a\u2554\u2569\u2566\u2560\u2550\u256c¤\ufffd\ufffd" ++
    "\ufffd\ufffd\ufffd\ufffd\ufffd\ufffd\ufffd\u2518\u250c\u2588\u2584\u00a6\ufffd\u2580\ufffd" ++
    "\ufffd\ufffd\ufffd\ufffd\ufffdµ\ufffd\ufffd\ufffd\ufffd\ufffd\ufffd\ufffd¯´\u00ad±‗¾¶§÷¸" ++
    "\u00b0¨·¹³²\u25a0\u00a0"

def cp857 : CodePage where
  name := "cp857"
  aliases := ["857", "csibm857", "ibm857"]
  first := 0x80
  characters :=
    "ÇüéâäàåçêëèïîıÄÅÉæÆôöòûùİÖÜø£ØŞşáíóúñÑĞğ¿\u00ae¬½¼¡«»\u2591\u2592\u2593\u2502\u2524ÁÂÀ" ++
    "\u00a9\u2563\u2551\u2557\u255d¢¥\u2510\u2514\u2534\u252c\u251c\u2500\u253cãÃ\u255a\u2554" ++
    "\u2569\u2566\u2560\u2550\u256c¤ºªÊËÈ\ufffdÍÎÏ\u2518\u250c\u2588\u2584\u00a6Ì\u2580ÓßÔÒõÕµ" ++
    "\ufffd×ÚÛÙìÿ¯´\u00ad±\ufffd¾¶§÷¸\u00b0¨·¹³²\u25a0\u00a0"

def cp858 : CodePage where
  name := "cp858"
  aliases := ["858", "csibm858", "ibm858"]
  first := 0x80
  characters :=
    "ÇüéâäàåçêëèïîìÄÅÉæÆôöòûùÿÖÜø£Ø×ƒáíóúñÑªº¿\u00ae¬½¼¡«»\u2591\u2592\u2593\u2502\u2524ÁÂÀ" ++
    "\u00a9\u2563\u2551\u2557\u255d¢¥\u2510\u2514\u2534\u252c\u251c\u2500\u253cãÃ\u255a\u2554" ++
    "\u2569\u2566\u2560\u2550\u256c¤ðÐÊËÈ€ÍÎÏ\u2518\u250c\u2588\u2584\u00a6Ì\u2580ÓßÔÒõÕµþÞÚÛÙýÝ" ++
    "¯´\u00ad±‗¾¶§÷¸\u00b0¨·¹³²\u25a0\u00a0"

def cp860 : CodePage where
  name := "cp860"
  aliases := ["860", "csibm860", "ibm860"]
  first := 0x80
  characters :=
    "ÇüéâãàÁçêÊèÍÔìÃÂÉÀÈôõòÚùÌÕÜ¢£Ù₧ÓáíóúñÑªº¿Ò¬½¼¡«»\u2591\u2592\u2593\u2502\u2524\u2561\u2562" ++
    "\u2556\u2555\u2563\u2551\u2557\u255d\u255c\u255b\u2510\u2514\u2534\u252c\u251c\u2500\u253c" ++
    "\u255e\u255f\u255a\u2554\u2569\u2566\u2560\u2550\u256c\u2567\u2568\u2564\u2565\u2559\u2558" ++
    "\u2552\u2553\u256b\u256a\u2518\u250c\u2588\u2584\u258c\u2590\u2580αßΓπΣσµτΦΘΩδ∞φε∩≡±≥≤⌠⌡÷≈" ++
    "\u00b0∙·√ⁿ²\u25a0\u00a0"

def cp861 : CodePage where
  name := "cp861"
  aliases := ["861", "cp_is", "csibm861", "ibm861"]
  first := 0x80
  characters :=
    "ÇüéâäàåçêëèÐðÞÄÅÉæÆôöþûÝýÖÜø£Ø₧ƒáíóúÁÍÓÚ¿\u2310¬½¼¡«»\u2591\u2592\u2593\u2502\u2524\u2561" ++
    "\u2562\u2556\u2555\u2563\u2551\u2557\u255d\u255c\u255b\u2510\u2514\u2534\u252c\u251c\u2500" ++
    "\u253c\u255e\u255f\u255a\u2554\u2569\u2566\u2560\u2550\u256c\u2567\u2568\u2564\u2565\u2559" ++
    "\u2558\u2552\u2553\u256b\u256a\u2518\u250c\u2588\u2584\u258c\u2590\u2580αßΓπΣσµτΦΘΩδ∞φε∩≡±≥" ++
    "≤⌠⌡÷≈\u00b0∙·√ⁿ²\u25a0\u00a0"

def cp862 : CodePage where
  name := "cp862"
  aliases := ["862", "cspc862latinhebrew", "ibm862"]
  first := 0x80
  characters :=
    "\u05d0\u05d1\u05d2\u05d3\u05d4\u05d5\u05d6\u05d7\u05d8\u05d9\u05da\u05db\u05dc\u05dd\u05de" ++
    "\u05df\u05e0\u05e1\u05e2\u05e3\u05e4\u05e5\u05e6\u05e7\u05e8\u05e9\u05ea¢£¥₧ƒáíóúñÑªº¿" ++
    "\u2310¬½¼¡«»\u2591\u2592\u2593\u2502\u2524\u2561\u2562\u2556\u2555\u2563\u2551\u2557\u255d" ++
    "\u255c\u255b\u2510\u2514\u2534\u252c\u251c\u2500\u253c\u255e\u255f\u255a\u2554\u2569\u2566" ++
    "\u2560\u2550\u256c\u2567\u2568\u2564\u2565\u2559\u2558\u2552\u2553\u256b\u256a\u2518\u250c" ++
    "\u2588\u2584\u258c\u2590\u2580αßΓπΣσµτΦΘΩδ∞φε∩≡±≥≤⌠⌡÷≈\u00b0∙·√ⁿ²\u25a0\u00a0"

def cp863 : CodePage where
  name := "cp863"
  aliases := ["863", "csibm863", "ibm863"]
  first := 0x80
  characters :=
    "ÇüéâÂà¶çêëèïî‗À§ÉÈÊôËÏûù¤ÔÜ¢£ÙÛƒ\u00a6´óú¨¸³¯Î\u2310¬½¼¾«»\u2591\u2592\u2593\u2502\u2524" ++
    "\u2561\u2562\u2556\u2555\u2563\u2551\u2557\u255d\u255c\u255b\u2510\u2514\u2534\u252c\u251c" ++
    "\u2500\u253c\u255e\u255f\u255a\u2554\u2569\u2566\u2560\u2550\u256c\u2567\u2568\u2564\u2565" ++
    "\u2559\u2558\u2552\u2553\u256b\u256a\u2518\u250c\u2588\u2584\u258c\u2590\u2580αßΓπΣσµτΦΘΩδ∞" ++
    "φε∩≡±≥≤⌠⌡÷≈\u00b0∙·√ⁿ²\u25a0\u00a0"

def cp864 : CodePage where
  name := "cp864"
  aliases := ["864", "csibm864", "ibm864"]
  first := 0x25
  characters :=
    "٪&'()*+,-./0123456789:;<=>?@ABCDEFGHIJKLMNOPQRSTUVWXYZ[\\]^_`abcdefghijklmnopqrstuvwxyz\x7b" ++
    "|\x7d~\x7f\u00b0·∙√\u2592\u2500\u2502\u253c\u2524\u252c\u251c\u2534\u2510\u250c\u2514\u2518" ++
    "β∞φ±½¼≈«»\ufef7\ufef8\ufffd\ufffd\ufefb\ufefc\ufffd\u00a0\u00ad\ufe82£¤\ufe84\ufffd\ufffd" ++
    "\ufe8e\ufe8f\ufe95\ufe99،\ufe9d\ufea1\ufea5\u0660\u0661\u0662\u0663\u0664\u0665\u0666\u0667" ++
    "\u0668\u0669\ufed1\u061b\ufeb1\ufeb5\ufeb9\u061f¢\ufe80\ufe81\ufe83\ufe85\ufeca\ufe8b\ufe8d" ++
    "\ufe91\ufe93\ufe97\ufe9b\ufe9f\ufea3\ufea7\ufea9\ufeab\ufead\ufeaf\ufeb3\ufeb7\ufebb\ufebf" ++
    "\ufec1\ufec5\ufecb\ufecf\u00a6¬÷×\ufec9\u0640\ufed3\ufed7\ufedb\ufedf\ufee3\ufee7\ufeeb" ++
    "\ufeed\ufeef\ufef3\ufebd\ufecc\ufece\ufecd\ufee1\ufe7d\u0651\ufee5\ufee9\ufeec\ufef0\ufef2" ++
    "\ufed0\ufed5\ufef5\ufef6\ufedd\ufed9\ufef1\u25a0\ufffd"

def cp865 : CodePage where
  name := "cp865"
  aliases := ["865", "csibm865", "ibm865"]
  first := 0x80
  characters :=
    "ÇüéâäàåçêëèïîìÄÅÉæÆôöòûùÿÖÜø£Ø₧ƒáíóúñÑªº¿\u2310¬½¼¡«¤\u2591\u2592\u2593\u2502\u2524\u2561" ++
    "\u2562\u2556\u2555\u2563\u2551\u2557\u255d\u255c\u255b\u2510\u2514\u2534\u252c\u251c\u2500" ++
    "\u253c\u255e\u255f\u255a\u2554\u2569\u2566\u2560\u2550\u256c\u2567\u2568\u2564\u2565\u2559" ++
    "\u2558\u2552\u2553\u256b\u256a\u2518\u250c\u2588\u2584\u258c\u2590\u2580αßΓπΣσµτΦΘΩδ∞φε∩≡±≥" ++
    "≤⌠⌡÷≈\u00b0∙·√ⁿ²\u25a0\u00a0"

def cp866 : CodePage where
  name := "cp866"
  aliases := ["866", "csibm866", "ibm866"]
  first := 0x80
  characters :=
    "АБВГДЕЖЗИЙКЛМНОПРСТУФХЦЧШЩЪЫЬЭЮЯабвгдежзийклмноп\u2591\u2592\u2593\u2502\u2524\u2561\u2562" ++
    "\u2556\u2555\u2563\u2551\u2557\u255d\u255c\u255b\u2510\u2514\u2534\u252c\u251c\u2500\u253c" ++
    "\u255e\u255f\u255a\u2554\u2569\u2566\u2560\u2550\u256c\u2567\u2568\u2564\u2565\u2559\u2558" ++
    "\u2552\u2553\u256b\u256a\u2518\u250c\u2588\u2584\u258c\u2590\u2580рстуфхцчшщъыьэюяЁёЄєЇїЎў" ++
    "\u00b0∙·√\u2116¤\u25a0\u00a0"

def cp869 : CodePage where
  name := "cp869"
  aliases := ["869", "cp_gr", "csibm869", "ibm869"]
  first := 0x80
  characters :=
    "\ufffd\ufffd\ufffd\ufffd\ufffd\ufffdΆ\ufffd·¬\u00a6‘’Έ―ΉΊΪΌ\ufffd\ufffdΎΫ\u00a9Ώ²³ά£έήίϊΐόύ" ++
    "ΑΒΓΔΕΖΗ½ΘΙ«»\u2591\u2592\u2593\u2502\u2524ΚΛΜΝ\u2563\u2551\u2557\u255dΞΟ\u2510\u2514\u2534" ++
    "\u252c\u251c\u2500\u253cΠΡ\u255a\u2554\u2569\u2566\u2560\u2550\u256cΣΤΥΦΧΨΩαβγ\u2518\u250c" ++
    "\u2588\u2584δε\u2580ζηθικλμνξοπρσςτ΄\u00ad±υφχ§ψ΅\u00b0¨ωϋΰώ\u25a0\u00a0"

def cp874 : CodePage where
  name := "cp874"
  aliases := []
  first := 0x80
  characters :=
    "€\ufffd\ufffd\ufffd\ufffd…\ufffd\ufffd\ufffd\ufffd\ufffd\ufffd\ufffd\ufffd\ufffd\ufffd" ++
    "\ufffd‘’“”•–—\ufffd\ufffd\ufffd\ufffd\ufffd\ufffd\ufffd\ufffd\u00a0กขฃคฅฆงจฉชซฌญฎฏฐฑฒณดตถทธ" ++
    "นบปผฝพฟภมยรฤลฦวศษสหฬอฮฯะ\u0e31าำ\u0e34\u0e35\u0e36\u0e37\u0e38\u0e39\u0e3a\ufffd\ufffd" ++
    "\ufffd\ufffd฿เแโใไๅๆ\u0e47\u0e48\u0e49\u0e4a\u0e4b\u0e4c\u0e4d\u0e4e๏๐๑๒๓๔๕๖๗๘๙๚๛\ufffd" ++
    "\ufffd\ufffd\ufffd"

def cp1006 : CodePage where
  name := "cp1006"
  aliases := []
  first := 0x80
  characters :=
    "\x80\x81\x82\x83\x84\x85\x86\x87\x88\x89\x8a\x8b\x8c\x8d\x8e\x8f\x90\x91\x92\x93\x94\x95" ++
    "\x96\x97\x98\x99\x9a\x9b\x9c\x9d\x9e\x9f\u00a0۰۱۲۳۴۵۶۷۸۹،\u061b\u00ad\u061f\ufe81\ufe8d" ++
    "\ufe8e\ufe8e\ufe8f\ufe91\ufb56\ufb58\ufe93\ufe95\ufe97\ufb66\ufb68\ufe99\ufe9b\ufe9d\ufe9f" ++
    "\ufb7a\ufb7c\ufea1\ufea3\ufea5\ufea7\ufea9\ufb84\ufeab\ufead\ufb8c\ufeaf\ufb8a\ufeb1\ufeb3" ++
    "\ufeb5\ufeb7\ufeb9\ufebb\ufebd\ufebf\ufec1\ufec5\ufec9\ufeca\ufecb\ufecc\ufecd\ufece\ufecf" ++
    "\ufed0\ufed1\ufed3\ufed5\ufed7\ufed9\ufedb\ufb92\ufb94\ufedd\ufedf\ufee0\ufee1\ufee3\ufb9e" ++
    "\ufee5\ufee7\ufe85\ufeed\ufba6\ufba8\ufba9\ufbaa\ufe80\ufe89\ufe8a\ufe8b\ufef1\ufef2\ufef3" ++
    "\ufbb0\ufbae\ufe7c\ufe7d"

def cp1125 : CodePage where
  name := "cp1125"
  aliases := ["1125", "cp866u", "ibm1125", "ruscii"]
  first := 0x80
  characters :=
    "АБВГДЕЖЗИЙКЛМНОПРСТУФХЦЧШЩЪЫЬЭЮЯабвгдежзийклмноп\u2591\u2592\u2593\u2502\u2524\u2561\u2562" ++
    "\u2556\u2555\u2563\u2551\u2557\u255d\u255c\u255b\u2510\u2514\u2534\u252c\u251c\u2500\u253c" ++
    "\u255e\u255f\u255a\u2554\u2569\u2566\u2560\u2550\u256c\u2567\u2568\u2564\u2565\u2559\u2558" ++
    "\u2552\u2553\u256b\u256a\u2518\u250c\u2588\u2584\u258c\u2590\u2580рстуфхцчшщъыьэюяЁёҐґЄєІіЇ" ++
    "ї·√\u2116¤\u25a0\u00a0"

def cp1250 : CodePage where
  name := "cp1250"
  aliases := ["1250", "windows_1250"]
  first := 0x80
  characters :=
    "€\ufffd‚\ufffd„…†‡\ufffd‰Š‹ŚŤŽŹ\ufffd‘’“”•–—\ufffd\u2122š›śťžź\u00a0ˇ˘Ł¤Ą\u00a6§¨\u00a9Ş«¬" ++
    "\u00ad\u00aeŻ\u00b0±˛ł´µ¶·¸ąş»Ľ˝ľżŔÁÂĂÄĹĆÇČÉĘËĚÍÎĎĐŃŇÓÔŐÖ×ŘŮÚŰÜÝŢßŕáâăäĺćçčéęëěíîďđńňóôőö÷ř" ++
    "ůúűüýţ˙"

def cp1251 : CodePage where
  name := "cp1251"
  aliases := ["1251", "windows_1251"]
  first := 0x80
  characters :=
    "ЂЃ‚ѓ„…†‡€‰Љ‹ЊЌЋЏђ‘’“”•–—\ufffd\u2122љ›њќћџ\u00a0ЎўЈ¤Ґ\u00a6§Ё\u00a9Є«¬\u00ad\u00aeЇ\u00b0±І" ++
    "іґµ¶·ё\u2116є»јЅѕїАБВГДЕЖЗИЙКЛМНОПРСТУФХЦЧШЩЪЫЬЭЮЯабвгдежзийклмнопрстуфхцчшщъыьэюя"

def cp1252 : CodePage where
  name := "cp1252"
  aliases := ["1252", "windows_1252"]
  first := 0x80
  characters :=
    "€\ufffd‚ƒ„…†‡ˆ‰Š‹Œ\ufffdŽ\ufffd\ufffd‘’“”•–—˜\u2122š›œ\ufffdžŸ\u00a0¡¢£¤¥\u00a6§¨\u00a9ª«¬" ++
    "\u00ad\u00ae¯\u00b0±²³´µ¶·¸¹º»¼½¾¿ÀÁÂÃÄÅÆÇÈÉÊËÌÍÎÏÐÑÒÓÔÕÖ×ØÙÚÛÜÝÞßàáâãäåæçèéêëìíîïðñòóôõö÷ø" ++
    "ùúûüýþÿ"

def cp1253 : CodePage where
  name := "cp1253"
  aliases := ["1253", "windows_1253"]
  first := 0x80
  characters :=
    "€\ufffd‚ƒ„…†‡\ufffd‰\ufffd‹\ufffd\ufffd\ufffd\ufffd\ufffd‘’“”•–—\ufffd\u2122\ufffd›\ufffd" ++
    "\ufffd\ufffd\ufffd\u00a0΅Ά£¤¥\u00a6§¨\u00a9\ufffd«¬\u00ad\u00ae―\u00b0±²³΄µ¶·ΈΉΊ»Ό½ΎΏΐΑΒΓΔΕ" ++
    "ΖΗΘΙΚΛΜΝΞΟΠΡ\ufffdΣΤΥΦΧΨΩΪΫάέήίΰαβγδεζηθικλμνξοπρςστυφχψωϊϋόύώ\ufffd"

def cp1254 : CodePage where
  name := "cp1254"
  aliases := ["1254", "windows_1254"]
  first := 0x80
  characters :=
    "€\ufffd‚ƒ„…†‡ˆ‰Š‹Œ\ufffd\ufffd\ufffd\ufffd‘’“”•–—˜\u2122š›œ\ufffd\ufffdŸ\u00a0¡¢£¤¥\u00a6§¨" ++
    "\u00a9ª«¬\u00ad\u00ae¯\u00b0±²³´µ¶·¸¹º»¼½¾¿ÀÁÂÃÄÅÆÇÈÉÊËÌÍÎÏĞÑÒÓÔÕÖ×ØÙÚÛÜİŞßàáâãäåæçèéêëìíîï" ++
    "ğñòóôõö÷øùúûüışÿ"

def cp1255 : CodePage where
  name := "cp1255"
  aliases := ["1255", "windows_1255"]
  first := 0x80
  characters :=
    "€\ufffd‚ƒ„…†‡ˆ‰\ufffd‹\ufffd\ufffd\ufffd\ufffd\ufffd‘’“”•–—˜\u2122\ufffd›\ufffd\ufffd\ufffd" ++
    "\ufffd\u00a0¡¢£₪¥\u00a6§¨\u00a9×«¬\u00ad\u00ae¯\u00b0±²³´µ¶·¸¹÷»¼½¾¿\u05b0\u05b1\u05b2" ++
    "\u05b3\u05b4\u05b5\u05b6\u05b7\u05b8\u05b9\ufffd\u05bb\u05bc\u05bd\u05be\u05bf\u05c0\u05c1" ++
    "\u05c2\u05c3\u05f0\u05f1\u05f2\u05f3\u05f4\ufffd\ufffd\ufffd\ufffd\ufffd\ufffd\ufffd\u05d0" ++
    "\u05d1\u05d2\u05d3\u05d4\u05d5\u05d6\u05d7\u05d8\u05d9\u05da\u05db\u05dc\u05dd\u05de\u05df" ++
    "\u05e0\u05e1\u05e2\u05e3\u05e4\u05e5\u05e6\u05e7\u05e8\u05e9\u05ea\ufffd\ufffd\u200e\u200f" ++
    "\ufffd"

def cp1256 : CodePage where
  name := "cp1256"
  aliases := ["1256", "windows_1256"]
  first := 0x80
  characters :=
    "€\u067e‚ƒ„…†‡ˆ‰\u0679‹Œ\u0686\u0698\u0688\u06af‘’“”•–—\u06a9\u2122\u0691›œ\u200c\u200d" ++
    "\u06ba\u00a0،¢£¤¥\u00a6§¨\u00a9\u06be«¬\u00ad\u00ae¯\u00b0±²³´µ¶·¸¹\u061b»¼½¾\u061f\u06c1" ++
    "\u0621\u0622\u0623\u0624\u0625\u0626\u0627\u0628\u0629\u062a\u062b\u062c\u062d\u062e\u062f" ++
    "\u0630\u0631\u0632\u0633\u0634\u0635\u0636×\u0637\u0638\u0639\u063a\u0640\u0641\u0642\u0643" ++
    "à\u0644â\u0645\u0646\u0647\u0648çèéêë\u0649\u064aîï\u064b\u064c\u064d\u064eô\u064f\u0650÷" ++
    "\u0651ù\u0652ûü\u200e\u200f\u06d2"

def cp1257 : CodePage where
  name := "cp1257"
  aliases := ["1257", "windows_1257"]
  first := 0x80
  characters :=
    "€\ufffd‚\ufffd„…†‡\ufffd‰\ufffd‹\ufffd¨ˇ¸\ufffd‘’“”•–—\ufffd\u2122\ufffd›\ufffd¯˛\ufffd" ++
    "\u00a0\ufffd¢£¤\ufffd\u00a6§Ø\u00a9Ŗ«¬\u00ad\u00aeÆ\u00b0±²³´µ¶·ø¹ŗ»¼½¾æĄĮĀĆÄÅĘĒČÉŹĖĢĶĪĻŠŃŅ" ++
    "ÓŌÕÖ×ŲŁŚŪÜŻŽßąįāćäåęēčéźėģķīļšńņóōõö÷ųłśūüżž˙"

def cp1258 : CodePage where
  name := "cp1258"
  aliases := ["1258", "windows_1258"]
  first := 0x80
  characters :=
    "€\ufffd‚ƒ„…†‡ˆ‰\ufffd‹Œ\ufffd\ufffd\ufffd\ufffd‘’“”•–—˜\u2122\ufffd›œ\ufffd\ufffdŸ\u00a0¡¢£" ++
    "¤¥\u00a6§¨\u00a9ª«¬\u00ad\u00ae¯\u00b0±²³´µ¶·¸¹º»¼½¾¿ÀÁÂĂÄÅÆÇÈÉÊË\u0300ÍÎÏĐÑ\u0309ÓÔƠÖ×ØÙÚÛ" ++
    "ÜƯ\u0303ßàáâăäåæçèéêë\u0301íîïđñ\u0323óôơö÷øùúûüư₫ÿ"

def iso8859Part2 : CodePage where
  name := "iso8859_2"
  aliases := ["csisolatin2", "iso_8859_2", "iso_8859_2_1987", "iso_ir_101", "l2", "latin2"]
  first := 0x80
  characters :=
    "\x80\x81\x82\x83\x84\x85\x86\x87\x88\x89\x8a\x8b\x8c\x8d\x8e\x8f\x90\x91\x92\x93\x94\x95" ++
    "\x96\x97\x98\x99\x9a\x9b\x9c\x9d\x9e\x9f\u00a0Ą˘Ł¤ĽŚ§¨ŠŞŤŹ\u00adŽŻ\u00b0ą˛ł´ľśˇ¸šşťź˝žżŔÁÂĂ" ++
    "ÄĹĆÇČÉĘËĚÍÎĎĐŃŇÓÔŐÖ×ŘŮÚŰÜÝŢßŕáâăäĺćçčéęëěíîďđńňóôőö÷řůúűüýţ˙"

def iso8859Part3 : CodePage where
  name := "iso8859_3"
  aliases := ["csisolatin3", "iso_8859_3", "iso_8859_3_1988", "iso_ir_109", "l3", "latin3"]
  first := 0x80
  characters :=
    "\x80\x81\x82\x83\x84\x85\x86\x87\x88\x89\x8a\x8b\x8c\x8d\x8e\x8f\x90\x91\x92\x93\x94\x95" ++
    "\x96\x97\x98\x99\x9a\x9b\x9c\x9d\x9e\x9f\u00a0Ħ˘£¤\ufffdĤ§¨İŞĞĴ\u00ad\ufffdŻ\u00b0ħ²³´µĥ·¸ı" ++
    "şğĵ½\ufffdżÀÁÂ\ufffdÄĊĈÇÈÉÊËÌÍÎÏ\ufffdÑÒÓÔĠÖ×ĜÙÚÛÜŬŜßàáâ\ufffdäċĉçèéêëìíîï\ufffdñòóôġö÷ĝùúû" ++
    "üŭŝ˙"

def iso8859Part4 : CodePage where
  name := "iso8859_4"
  aliases := ["csisolatin4", "iso_8859_4", "iso_8859_4_1988", "iso_ir_110", "l4", "latin4"]
  first := 0x80
  characters :=
    "\x80\x81\x82\x83\x84\x85\x86\x87\x88\x89\x8a\x8b\x8c\x8d\x8e\x8f\x90\x91\x92\x93\x94\x95" ++
    "\x96\x97\x98\x99\x9a\x9b\x9c\x9d\x9e\x9f\u00a0ĄĸŖ¤ĨĻ§¨ŠĒĢŦ\u00adŽ¯\u00b0ą˛ŗ´ĩļˇ¸šēģŧŊžŋĀÁÂÃ" ++
    "ÄÅÆĮČÉĘËĖÍÎĪĐŅŌĶÔÕÖ×ØŲÚÛÜŨŪßāáâãäåæįčéęëėíîīđņōķôõö÷øųúûüũū˙"

def iso8859Part5 : CodePage where
  name := "iso8859_5"
  aliases := ["csisolatincyrillic", "cyrillic", "iso_8859_5", "iso_8859_5_1988", "iso_ir_144"]
  first := 0x80
  characters :=
    "\x80\x81\x82\x83\x84\x85\x86\x87\x88\x89\x8a\x8b\x8c\x8d\x8e\x8f\x90\x91\x92\x93\x94\x95" ++
    "\x96\x97\x98\x99\x9a\x9b\x9c\x9d\x9e\x9f\u00a0ЁЂЃЄЅІЇЈЉЊЋЌ\u00adЎЏАБВГДЕЖЗИЙКЛМНОПРСТУФХЦЧШ" ++
    "ЩЪЫЬЭЮЯабвгдежзийклмнопрстуфхцчшщъыьэюя\u2116ёђѓєѕіїјљњћќ§ўџ"

def iso8859Part6 : CodePage where
  name := "iso8859_6"
  aliases :=
    ["arabic", "asmo_708", "csisolatinarabic", "ecma_114", "iso_8859_6", "iso_8859_6_1987",
     "iso_ir_127"]
  first := 0x80
  characters :=
    "\x80\x81\x82\x83\x84\x85\x86\x87\x88\x89\x8a\x8b\x8c\x8d\x8e\x8f\x90\x91\x92\x93\x94\x95" ++
    "\x96\x97\x98\x99\x9a\x9b\x9c\x9d\x9e\x9f\u00a0\ufffd\ufffd\ufffd¤\ufffd\ufffd\ufffd\ufffd" ++
    "\ufffd\ufffd\ufffd،\u00ad\ufffd\ufffd\ufffd\ufffd\ufffd\ufffd\ufffd\ufffd\ufffd\ufffd\ufffd" ++
    "\ufffd\ufffd\u061b\ufffd\ufffd\ufffd\u061f\ufffd\u0621\u0622\u0623\u0624\u0625\u0626\u0627" ++
    "\u0628\u0629\u062a\u062b\u062c\u062d\u062e\u062f\u0630\u0631\u0632\u0633\u0634\u0635\u0636" ++
    "\u0637\u0638\u0639\u063a\ufffd\ufffd\ufffd\ufffd\ufffd\u0640\u0641\u0642\u0643\u0644\u0645" ++
    "\u0646\u0647\u0648\u0649\u064a\u064b\u064c\u064d\u064e\u064f\u0650\u0651\u0652\ufffd\ufffd" ++
    "\ufffd\ufffd\ufffd\ufffd\ufffd\ufffd\ufffd\ufffd\ufffd\ufffd\ufffd"

def iso8859Part7 : CodePage where
  name := "iso8859_7"
  aliases :=
    ["csisolatingreek", "ecma_118", "elot_928", "greek", "greek8", "iso_8859_7", "iso_8859_7_1987",
     "iso_ir_126"]
  first := 0x80
  characters :=
    "\x80\x81\x82\x83\x84\x85\x86\x87\x88\x89\x8a\x8b\x8c\x8d\x8e\x8f\x90\x91\x92\x93\x94\x95" ++
    "\x96\x97\x98\x99\x9a\x9b\x9c\x9d\x9e\x9f\u00a0‘’£€₯\u00a6§¨\u00a9ͺ«¬\u00ad\ufffd―\u00b0±²³΄" ++
    "΅Ά·ΈΉΊ»Ό½ΎΏΐΑΒΓΔΕΖΗΘΙΚΛΜΝΞΟΠΡ\ufffdΣΤΥΦΧΨΩΪΫάέήίΰαβγδεζηθικλμνξοπρςστυφχψωϊϋόύώ\ufffd"

def iso8859Part8 : CodePage where
  name := "iso8859_8"
  aliases := ["csisolatinhebrew", "hebrew", "iso_8859_8", "iso_8859_8_1988", "iso_ir_138"]
  first := 0x80
  characters :=
    "\x80\x81\x82\x83\x84\x85\x86\x87\x88\x89\x8a\x8b\x8c\x8d\x8e\x8f\x90\x91\x92\x93\x94\x95" ++
    "\x96\x97\x98\x99\x9a\x9b\x9c\x9d\x9e\x9f\u00a0\ufffd¢£¤¥\u00a6§¨\u00a9×«¬\u00ad\u00ae¯" ++
    "\u00b0±²³´µ¶·¸¹÷»¼½¾\ufffd\ufffd\ufffd\ufffd\ufffd\ufffd\ufffd\ufffd\ufffd\ufffd\ufffd" ++
    "\ufffd\ufffd\ufffd\ufffd\ufffd\ufffd\ufffd\ufffd\ufffd\ufffd\ufffd\ufffd\ufffd\ufffd\ufffd" ++
    "\ufffd\ufffd\ufffd\ufffd\ufffd\ufffd‗\u05d0\u05d1\u05d2\u05d3\u05d4\u05d5\u05d6\u05d7\u05d8" ++
    "\u05d9\u05da\u05db\u05dc\u05dd\u05de\u05df\u05e0\u05e1\u05e2\u05e3\u05e4\u05e5\u05e6\u05e7" ++
    "\u05e8\u05e9\u05ea\ufffd\ufffd\u200e\u200f\ufffd"

def iso8859Part9 : CodePage where
  name := "iso8859_9"
  aliases := ["csisolatin5", "iso_8859_9", "iso_8859_9_1989", "iso_ir_148", "l5", "latin5"]
  first := 0x80
  characters :=
    "\x80\x81\x82\x83\x84\x85\x86\x87\x88\x89\x8a\x8b\x8c\x8d\x8e\x8f\x90\x91\x92\x93\x94\x95" ++
    "\x96\x97\x98\x99\x9a\x9b\x9c\x9d\x9e\x9f\u00a0¡¢£¤¥\u00a6§¨\u00a9ª«¬\u00ad\u00ae¯\u00b0±²³´" ++
    "µ¶·¸¹º»¼½¾¿ÀÁÂÃÄÅÆÇÈÉÊËÌÍÎÏĞÑÒÓÔÕÖ×ØÙÚÛÜİŞßàáâãäåæçèéêëìíîïğñòóôõö÷øùúûüışÿ"

def iso8859Part10 : CodePage where
  name := "iso8859_10"
  aliases := ["csisolatin6", "iso_8859_10", "iso_8859_10_1992", "iso_ir_157", "l6", "latin6"]
  first := 0x80
  characters :=
    "\x80\x81\x82\x83\x84\x85\x86\x87\x88\x89\x8a\x8b\x8c\x8d\x8e\x8f\x90\x91\x92\x93\x94\x95" ++
    "\x96\x97\x98\x99\x9a\x9b\x9c\x9d\x9e\x9f\u00a0ĄĒĢĪĨĶ§ĻĐŠŦŽ\u00adŪŊ\u00b0ąēģīĩķ·ļđšŧž―ūŋĀÁÂÃ" ++
    "ÄÅÆĮČÉĘËĖÍÎÏÐŅŌÓÔÕÖŨØŲÚÛÜÝÞßāáâãäåæįčéęëėíîïðņōóôõöũøųúûüýþĸ"

def iso8859Part11 : CodePage where
  name := "iso8859_11"
  aliases := ["iso_8859_11", "iso_8859_11_2001", "thai"]
  first := 0x80
  characters :=
    "\x80\x81\x82\x83\x84\x85\x86\x87\x88\x89\x8a\x8b\x8c\x8d\x8e\x8f\x90\x91\x92\x93\x94\x95" ++
    "\x96\x97\x98\x99\x9a\x9b\x9c\x9d\x9e\x9f\u00a0กขฃคฅฆงจฉชซฌญฎฏฐฑฒณดตถทธนบปผฝพฟภมยรฤลฦวศษสหฬอ" ++
    "ฮฯะ\u0e31าำ\u0e34\u0e35\u0e36\u0e37\u0e38\u0e39\u0e3a\ufffd\ufffd\ufffd\ufffd฿เแโใไๅๆ\u0e47" ++
    "\u0e48\u0e49\u0e4a\u0e4b\u0e4c\u0e4d\u0e4e๏๐๑๒๓๔๕๖๗๘๙๚๛\ufffd\ufffd\ufffd\ufffd"

def iso8859Part13 : CodePage where
  name := "iso8859_13"
  aliases := ["iso_8859_13", "l7", "latin7"]
  first := 0x80
  characters :=
    "\x80\x81\x82\x83\x84\x85\x86\x87\x88\x89\x8a\x8b\x8c\x8d\x8e\x8f\x90\x91\x92\x93\x94\x95" ++
    "\x96\x97\x98\x99\x9a\x9b\x9c\x9d\x9e\x9f\u00a0”¢£¤„\u00a6§Ø\u00a9Ŗ«¬\u00ad\u00aeÆ\u00b0±²³“" ++
    "µ¶·ø¹ŗ»¼½¾æĄĮĀĆÄÅĘĒČÉŹĖĢĶĪĻŠŃŅÓŌÕÖ×ŲŁŚŪÜŻŽßąįāćäåęēčéźėģķīļšńņóōõö÷ųłśūüżž’"

def iso8859Part14 : CodePage where
  name := "iso8859_14"
  aliases := ["iso_8859_14", "iso_8859_14_1998", "iso_celtic", "iso_ir_199", "l8", "latin8"]
  first := 0x80
  characters :=
    "\x80\x81\x82\x83\x84\x85\x86\x87\x88\x89\x8a\x8b\x8c\x8d\x8e\x8f\x90\x91\x92\x93\x94\x95" ++
    "\x96\x97\x98\x99\x9a\x9b\x9c\x9d\x9e\x9f\u00a0Ḃḃ£ĊċḊ§Ẁ\u00a9ẂḋỲ\u00ad\u00aeŸḞḟĠġṀṁ¶ṖẁṗẃṠỳẄẅ" ++
    "ṡÀÁÂÃÄÅÆÇÈÉÊËÌÍÎÏŴÑÒÓÔÕÖṪØÙÚÛÜÝŶßàáâãäåæçèéêëìíîïŵñòóôõöṫøùúûüýŷÿ"

def iso8859Part15 : CodePage where
  name := "iso8859_15"
  aliases := ["iso_8859_15", "l9", "latin9"]
  first := 0x80
  characters :=
    "\x80\x81\x82\x83\x84\x85\x86\x87\x88\x89\x8a\x8b\x8c\x8d\x8e\x8f\x90\x91\x92\x93\x94\x95" ++
    "\x96\x97\x98\x99\x9a\x9b\x9c\x9d\x9e\x9f\u00a0¡¢£€¥Š§š\u00a9ª«¬\u00ad\u00ae¯\u00b0±²³Žµ¶·ž¹" ++
    "º»ŒœŸ¿ÀÁÂÃÄÅÆÇÈÉÊËÌÍÎÏÐÑÒÓÔÕÖ×ØÙÚÛÜÝÞßàáâãäåæçèéêëìíîïðñòóôõö÷øùúûüýþÿ"

def iso8859Part16 : CodePage where
  name := "iso8859_16"
  aliases := ["iso_8859_16", "iso_8859_16_2001", "iso_ir_226", "l10", "latin10"]
  first := 0x80
  characters :=
    "\x80\x81\x82\x83\x84\x85\x86\x87\x88\x89\x8a\x8b\x8c\x8d\x8e\x8f\x90\x91\x92\x93\x94\x95" ++
    "\x96\x97\x98\x99\x9a\x9b\x9c\x9d\x9e\x9f\u00a0ĄąŁ€„Š§š\u00a9Ș«Ź\u00adźŻ\u00b0±ČłŽ”¶·žčș»ŒœŸ" ++
    "żÀÁÂĂÄĆÆÇÈÉÊËÌÍÎÏĐŃÒÓÔŐÖŚŰÙÚÛÜĘȚßàáâăäćæçèéêëìíîïđńòóôőöśűùúûüęțÿ"

def koi8R : CodePage where
  name := "koi8_r"
  aliases := ["cskoi8r"]
  first := 0x80
  characters :=
    "\u2500\u2502\u250c\u2510\u2514\u2518\u251c\u2524\u252c\u2534\u253c\u2580\u2584\u2588\u258c" ++
    "\u2590\u2591\u2592\u2593⌠\u25a0∙√≈≤≥\u00a0⌡\u00b0²·÷\u2550\u2551\u2552ё\u2553\u2554\u2555" ++
    "\u2556\u2557\u2558\u2559\u255a\u255b\u255c\u255d\u255e\u255f\u2560\u2561Ё\u2562\u2563\u2564" ++
    "\u2565\u2566\u2567\u2568\u2569\u256a\u256b\u256c\u00a9юабцдефгхийклмнопярстужвьызшэщчъЮАБЦД" ++
    "ЕФГХИЙКЛМНОПЯРСТУЖВЬЫЗШЭЩЧЪ"

def koi8T : CodePage where
  name := "koi8_t"
  aliases := []
  first := 0x80
  characters :=
    "қғ‚Ғ„…†‡\ufffd‰ҳ‹ҲҷҶ\ufffdҚ‘’“”•–—\ufffd\u2122\ufffd›\ufffd\ufffd\ufffd\ufffd\ufffdӯӮё¤ӣ" ++
    "\u00a6§\ufffd\ufffd\ufffd«¬\u00ad\u00ae\ufffd\u00b0±²Ё\ufffdӢ¶·\ufffd\u2116\ufffd»\ufffd" ++
    "\ufffd\ufffd\u00a9юабцдефгхийклмнопярстужвьызшэщчъЮАБЦДЕФГХИЙКЛМНОПЯРСТУЖВЬЫЗШЭЩЧЪ"

def koi8U : CodePage where
  name := "koi8_u"
  aliases := []
  first := 0x80
  characters :=
    "\u2500\u2502\u250c\u2510\u2514\u2518\u251c\u2524\u252c\u2534\u253c\u2580\u2584\u2588\u258c" ++
    "\u2590\u2591\u2592\u2593⌠\u25a0∙√≈≤≥\u00a0⌡\u00b0²·÷\u2550\u2551\u2552ёє\u2554ії\u2557" ++
    "\u2558\u2559\u255a\u255bґ\u255d\u255e\u255f\u2560\u2561ЁЄ\u2563ІЇ\u2566\u2567\u2568\u2569" ++
    "\u256aҐ\u256c\u00a9юабцдефгхийклмнопярстужвьызшэщчъЮАБЦДЕФГХИЙКЛМНОПЯРСТУЖВЬЫЗШЭЩЧЪ"

def kz1048 : CodePage where
  name := "kz1048"
  aliases := ["kz_1048", "rk1048", "strk1048_2002"]
  first := 0x80
  characters :=
    "ЂЃ‚ѓ„…†‡€‰Љ‹ЊҚҺЏђ‘’“”•–—\ufffd\u2122љ›њқһџ\u00a0ҰұӘ¤Ө\u00a6§Ё\u00a9Ғ«¬\u00ad\u00aeҮ\u00b0±І" ++
    "іөµ¶·ё\u2116ғ»әҢңүАБВГДЕЖЗИЙКЛМНОПРСТУФХЦЧШЩЪЫЬЭЮЯабвгдежзийклмнопрстуфхцчшщъыьэюя"

def hpRoman8 : CodePage where
  name := "hp_roman8"
  aliases := ["cp1051", "ibm1051", "r8", "roman8"]
  first := 0x80
  characters :=
    "\x80\x81\x82\x83\x84\x85\x86\x87\x88\x89\x8a\x8b\x8c\x8d\x8e\x8f\x90\x91\x92\x93\x94\x95" ++
    "\x96\x97\x98\x99\x9a\x9b\x9c\x9d\x9e\x9f\u00a0ÀÂÈÊËÎÏ´ˋˆ¨˜ÙÛ₤¯Ýý\u00b0ÇçÑñ¡¿¤£¥§ƒ¢âêôûáéóúà" ++
    "èòùäëöüÅîØÆåíøæÄìÖÜÉïßÔÁÃãÐðÍÌÓÒÕõŠšÚŸÿÞþ·µ¶¾—¼½ªº«\u25a0»±\ufffd"

def ptcp154 : CodePage where
  name := "ptcp154"
  aliases := ["cp154", "csptcp154", "cyrillic_asian", "pt154"]
  first := 0x80
  characters :=
    "ҖҒӮғ„…ҶҮҲүҠӢҢҚҺҸҗ‘’“”•–—ҳҷҡӣңқһҹ\u00a0ЎўЈӨҘҰ§Ё\u00a9Ә«¬ӯ\u00aeҜ\u00b0ұІіҙө¶·ё\u2116ә»јҪҫҝАБ" ++
    "ВГДЕЖЗИЙКЛМНОПРСТУФХЦЧШЩЪЫЬЭЮЯабвгдежзийклмнопрстуфхцчшщъыьэюя"

def palmos : CodePage where
  name := "palmos"
  aliases := []
  first := 0x80
  characters :=
    "€\x81‚ƒ„…†‡ˆ‰Š‹Œ\u2666\u2663\u2665\u2660‘’“”•–—˜\u2122š\x9bœ\x9d\x9eŸ\u00a0¡¢£¤¥\u00a6§¨" ++
    "\u00a9ª«¬\u00ad\u00ae¯\u00b0±²³´µ¶·¸¹º»¼½¾¿ÀÁÂÃÄÅÆÇÈÉÊËÌÍÎÏÐÑÒÓÔÕÖ×ØÙÚÛÜÝÞßàáâãäåæçèéêëìíîï" ++
    "ðñòóôõö÷øùúûüýþÿ"

def tis620 : CodePage where
  name := "tis_620"
  aliases := ["iso_ir_166", "tis620", "tis_620_0", "tis_620_2529_0", "tis_620_2529_1"]
  first := 0x80
  characters :=
    "\x80\x81\x82\x83\x84\x85\x86\x87\x88\x89\x8a\x8b\x8c\x8d\x8e\x8f\x90\x91\x92\x93\x94\x95" ++
    "\x96\x97\x98\x99\x9a\x9b\x9c\x9d\x9e\x9f\ufffdกขฃคฅฆงจฉชซฌญฎฏฐฑฒณดตถทธนบปผฝพฟภมยรฤลฦวศษสหฬอ" ++
    "ฮฯะ\u0e31าำ\u0e34\u0e35\u0e36\u0e37\u0e38\u0e39\u0e3a\ufffd\ufffd\ufffd\ufffd฿เแโใไๅๆ\u0e47" ++
    "\u0e48\u0e49\u0e4a\u0e4b\u0e4c\u0e4d\u0e4e๏๐๑๒๓๔๕๖๗๘๙๚๛\ufffd\ufffd\ufffd\ufffd"

def macCroatian : CodePage where
  name := "mac_croatian"
  aliases := []
  first := 0x80
  characters :=
    "ÄÅÇÉÑÖÜáàâäãåçéèêëíìîïñóòôöõúùûü†\u00b0¢£§•¶ß\u00aeŠ\u2122´¨≠ŽØ∞±≤≥∆µ∂∑∏š∫ªºΩžø¿¡¬√ƒ≈Ć«Č…" ++
    "\u00a0ÀÃÕŒœĐ—“”‘’÷\u25ca\uf8ff\u00a9⁄€‹›Æ»–·‚„‰ÂćÁčÈÍÎÏÌÓÔđÒÚÛÙıˆ˜¯πË˚¸Êæˇ"

def macCyrillic : CodePage where
  name := "mac_cyrillic"
  aliases := ["maccyrillic"]
  first := 0x80
  characters :=
    "АБВГДЕЖЗИЙКЛМНОПРСТУФХЦЧШЩЪЫЬЭЮЯ†\u00b0Ґ£§•¶І\u00ae\u00a9\u2122Ђђ≠Ѓѓ∞±≤≥іµґЈЄєЇїЉљЊњјЅ¬√ƒ≈∆" ++
    "«»…\u00a0ЋћЌќѕ–—“”‘’÷„ЎўЏџ\u2116Ёёяабвгдежзийклмнопрстуфхцчшщъыьэю€"

def macGreek : CodePage where
  name := "mac_greek"
  aliases := ["macgreek"]
  first := 0x80
  characters :=
    "Ä¹²É³ÖÜ΅àâä΄¨çéèêë£\u2122îï•½‰ôö\u00a6€ùûü†ΓΔΘΛΞΠß\u00ae\u00a9ΣΪ§≠\u00b0·Α±≤≥¥ΒΕΖΗΙΚΜΦΫΨΩάΝ" ++
    "¬ΟΡ≈Τ«»…\u00a0ΥΧΆΈœ–―“”‘’÷ΉΊΌΎέήίόΏύαβψδεφγηιξκλμνοπώρστθωςχυζϊϋΐΰ\u00ad"

def macIceland : CodePage where
  name := "mac_iceland"
  aliases := ["maciceland"]
  first := 0x80
  characters :=
    "ÄÅÇÉÑÖÜáàâäãåçéèêëíìîïñóòôöõúùûüÝ\u00b0¢£§•¶ß\u00ae\u00a9\u2122´¨≠ÆØ∞±≤≥¥µ∂∑∏π∫ªºΩæø¿¡¬√ƒ≈∆" ++
    "«»…\u00a0ÀÃÕŒœ–—“”‘’÷\u25caÿŸ⁄€ÐðÞþý·‚„‰ÂÊÁËÈÍÎÏÌÓÔ\uf8ffÒÚÛÙıˆ˜¯˘˙˚¸˝˛ˇ"

def macLatin2 : CodePage where
  name := "mac_latin2"
  aliases := ["mac_centeuro", "maccentraleurope", "maclatin2"]
  first := 0x80
  characters :=
    "ÄĀāÉĄÖÜáąČäčĆćéŹźĎíďĒēĖóėôöõúĚěü†\u00b0Ę£§•¶ß\u00ae\u00a9\u2122ę¨≠ģĮįĪ≤≥īĶ∂∑łĻļĽľĹĺŅņŃ¬√ńŇ∆" ++
    "«»…\u00a0ňŐÕőŌ–—“”‘’÷\u25caōŔŕŘ‹›řŖŗŠ‚„šŚśÁŤťÍŽžŪÓÔūŮÚůŰűŲųÝýķŻŁżĢˇ"

def macRoman : CodePage where
  name := "mac_roman"
  aliases := ["macintosh", "macroman"]
  first := 0x80
  characters :=
    "ÄÅÇÉÑÖÜáàâäãåçéèêëíìîïñóòôöõúùûü†\u00b0¢£§•¶ß\u00ae\u00a9\u2122´¨≠ÆØ∞±≤≥¥µ∂∑∏π∫ªºΩæø¿¡¬√ƒ≈∆" ++
    "«»…\u00a0ÀÃÕŒœ–—“”‘’÷\u25caÿŸ⁄€‹›ﬁﬂ‡·‚„‰ÂÊÁËÈÍÎÏÌÓÔ\uf8ffÒÚÛÙıˆ˜¯˘˙˚¸˝˛ˇ"

def macRomanian : CodePage where
  name := "mac_romanian"
  aliases := []
  first := 0x80
  characters :=
    "ÄÅÇÉÑÖÜáàâäãåçéèêëíìîïñóòôöõúùûü†\u00b0¢£§•¶ß\u00ae\u00a9\u2122´¨≠ĂȘ∞±≤≥¥µ∂∑∏π∫ªºΩăș¿¡¬√ƒ≈∆" ++
    "«»…\u00a0ÀÃÕŒœ–—“”‘’÷\u25caÿŸ⁄€‹›Țț‡·‚„‰ÂÊÁËÈÍÎÏÌÓÔ\uf8ffÒÚÛÙıˆ˜¯˘˙˚¸˝˛ˇ"

def macTurkish : CodePage where
  name := "mac_turkish"
  aliases := ["macturkish"]
  first := 0x80
  characters :=
    "ÄÅÇÉÑÖÜáàâäãåçéèêëíìîïñóòôöõúùûü†\u00b0¢£§•¶ß\u00ae\u00a9\u2122´¨≠ÆØ∞±≤≥¥µ∂∑∏π∫ªºΩæø¿¡¬√ƒ≈∆" ++
    "«»…\u00a0ÀÃÕŒœ–—“”‘’÷\u25caÿŸĞğİıŞş‡·‚„‰ÂÊÁËÈÍÎÏÌÓÔ\uf8ffÒÚÛÙ\uf8a0ˆ˜¯˘˙˚¸˝˛ˇ"

def macArabic : CodePage where
  name := "mac_arabic"
  aliases := []
  first := 0x80
  characters :=
    "Ä\u00a0ÇÉÑÖÜáàâä\u06ba«çéèêëí…îïñó»ôö÷úùûü !\"#$٪&'()*+،-./\u0660\u0661\u0662\u0663\u0664" ++
    "\u0665\u0666\u0667\u0668\u0669:\u061b<=>\u061f\u274a\u0621\u0622\u0623\u0624\u0625\u0626" ++
    "\u0627\u0628\u0629\u062a\u062b\u062c\u062d\u062e\u062f\u0630\u0631\u0632\u0633\u0634\u0635" ++
    "\u0636\u0637\u0638\u0639\u063a[\\]^_\u0640\u0641\u0642\u0643\u0644\u0645\u0646\u0647\u0648" ++
    "\u0649\u064a\u064b\u064c\u064d\u064e\u064f\u0650\u0651\u0652\u067e\u0679\u0686\u06d5\u06a4" ++
    "\u06af\u0688\u0691\x7b|\x7d\u0698\u06d2"

def macFarsi : CodePage where
  name := "mac_farsi"
  aliases := []
  first := 0x80
  characters :=
    "Ä\u00a0ÇÉÑÖÜáàâä\u06ba«çéèêëí…îïñó»ôö÷úùûü !\"#$٪&'()*+،-./۰۱۲۳۴۵۶۷۸۹:\u061b<=>\u061f\u274a" ++
    "\u0621\u0622\u0623\u0624\u0625\u0626\u0627\u0628\u0629\u062a\u062b\u062c\u062d\u062e\u062f" ++
    "\u0630\u0631\u0632\u0633\u0634\u0635\u0636\u0637\u0638\u0639\u063a[\\]^_\u0640\u0641\u0642" ++
    "\u0643\u0644\u0645\u0646\u0647\u0648\u0649\u064a\u064b\u064c\u064d\u064e\u064f\u0650\u0651" ++
    "\u0652\u067e\u0679\u0686\u06d5\u06a4\u06af\u0688\u0691\x7b|\x7d\u0698\u06d2"

def cp037 : CodePage where
  name := "cp037"
  aliases :=
    ["037", "csibm037", "ebcdic_cp_ca", "ebcdic_cp_nl", "ebcdic_cp_us", "ebcdic_cp_wt", "ibm037",
     "ibm039"]
  first := 0x04
  characters :=
    "\x9c\x09\x86\x7f\x97\x8d\x8e\x0b\x0c\x0d\x0e\x0f\x10\x11\x12\x13\x9d\x85\x08\x87\x18\x19" ++
    "\x92\x8f\x1c\x1d\x1e\x1f\x80\x81\x82\x83\x84\x0a\x17\x1b\x88\x89\x8a\x8b\x8c\x05\x06\x07" ++
    "\x90\x91\x16\x93\x94\x95\x96\x04\x98\x99\x9a\x9b\x14\x15\x9e\x1a \u00a0âäàáãåçñ¢.<(+|&éêëèí" ++
    "îïìß!$*);¬-/ÂÄÀÁÃÅÇÑ\u00a6,%_>?øÉÊËÈÍÎÏÌ`:#@'=\"Øabcdefghi«»ðýþ±\u00b0jklmnopqrªºæ¸Æ¤µ~stuv" ++
    "wxyz¡¿ÐÝÞ\u00ae^£¥·\u00a9§¶¼½¾[]¯¨´×\x7bABCDEFGHI\u00adôöòóõ\x7dJKLMNOPQR¹ûüùúÿ\\÷STUVWXYZ²" ++
    "ÔÖÒÓÕ0123456789³ÛÜÙÚ\x9f"

def cp273 : CodePage where
  name := "cp273"
  aliases := ["273", "csibm273", "ibm273"]
  first := 0x04
  characters :=
    "\x9c\x09\x86\x7f\x97\x8d\x8e\x0b\x0c\x0d\x0e\x0f\x10\x11\x12\x13\x9d\x85\x08\x87\x18\x19" ++
    "\x92\x8f\x1c\x1d\x1e\x1f\x80\x81\x82\x83\x84\x0a\x17\x1b\x88\x89\x8a\x8b\x8c\x05\x06\x07" ++
    "\x90\x91\x16\x93\x94\x95\x96\x04\x98\x99\x9a\x9b\x14\x15\x9e\x1a \u00a0â\x7bàáãåçñÄ.<(+!&éê" ++
    "ëèíîïì~Ü$*);^-/Â[ÀÁÃÅÇÑö,%_>?øÉÊËÈÍÎÏÌ`:#§'=\"Øabcdefghi«»ðýþ±\u00b0jklmnopqrªºæ¸Æ¤µßstuvwx" ++
    "yz¡¿ÐÝÞ\u00ae¢£¥·\u00a9@¶¼½¾¬|‾¨´×äABCDEFGHI\u00adô\u00a6òóõüJKLMNOPQR¹û\x7dùúÿÖ÷STUVWXYZ²Ô" ++
    "\\ÒÓÕ0123456789³Û]ÙÚ\x9f"

def cp424 : CodePage where
  name := "cp424"
  aliases := ["424", "csibm424", "ebcdic_cp_he", "ibm424"]
  first := 0x04
  characters :=
    "\x9c\x09\x86\x7f\x97\x8d\x8e\x0b\x0c\x0d\x0e\x0f\x10\x11\x12\x13\x9d\x85\x08\x87\x18\x19" ++
    "\x92\x8f\x1c\x1d\x1e\x1f\x80\x81\x82\x83\x84\x0a\x17\x1b\x88\x89\x8a\x8b\x8c\x05\x06\x07" ++
    "\x90\x91\x16\x93\x94\x95\x96\x04\x98\x99\x9a\x9b\x14\x15\x9e\x1a \u05d0\u05d1\u05d2\u05d3" ++
    "\u05d4\u05d5\u05d6\u05d7\u05d8¢.<(+|&\u05d9\u05da\u05db\u05dc\u05dd\u05de\u05df\u05e0\u05e1" ++
    "!$*);¬-/\u05e2\u05e3\u05e4\u05e5\u05e6\u05e7\u05e8\u05e9\u00a6,%_>?\ufffd\u05ea\ufffd\ufffd" ++
    "\u00a0\ufffd\ufffd\ufffd‗`:#@'=\"\ufffdabcdefghi«»\ufffd\ufffd\ufffd±\u00b0jklmnopqr\ufffd" ++
    "\ufffd\ufffd¸\ufffd¤µ~stuvwxyz\ufffd\ufffd\ufffd\ufffd\ufffd\u00ae^£¥·\u00a9§¶¼½¾[]¯¨´×\x7b" ++
    "ABCDEFGHI\u00ad\ufffd\ufffd\ufffd\ufffd\ufffd\x7dJKLMNOPQR¹\ufffd\ufffd\ufffd\ufffd\ufffd\\" ++
    "÷STUVWXYZ²\ufffd\ufffd\ufffd\ufffd\ufffd0123456789³\ufffd\ufffd\ufffd\ufffd\x9f"

def cp500 : CodePage where
  name := "cp500"
  aliases := ["500", "csibm500", "ebcdic_cp_be", "ebcdic_cp_ch", "ibm500"]
  first := 0x04
  characters :=
    "\x9c\x09\x86\x7f\x97\x8d\x8e\x0b\x0c\x0d\x0e\x0f\x10\x11\x12\x13\x9d\x85\x08\x87\x18\x19" ++
    "\x92\x8f\x1c\x1d\x1e\x1f\x80\x81\x82\x83\x84\x0a\x17\x1b\x88\x89\x8a\x8b\x8c\x05\x06\x07" ++
    "\x90\x91\x16\x93\x94\x95\x96\x04\x98\x99\x9a\x9b\x14\x15\x9e\x1a \u00a0âäàáãåçñ[.<(+!&éêëèí" ++
    "îïìß]$*);^-/ÂÄÀÁÃÅÇÑ\u00a6,%_>?øÉÊËÈÍÎÏÌ`:#@'=\"Øabcdefghi«»ðýþ±\u00b0jklmnopqrªºæ¸Æ¤µ~stuv" ++
    "wxyz¡¿ÐÝÞ\u00ae¢£¥·\u00a9§¶¼½¾¬|¯¨´×\x7bABCDEFGHI\u00adôöòóõ\x7dJKLMNOPQR¹ûüùúÿ\\÷STUVWXYZ²" ++
    "ÔÖÒÓÕ0123456789³ÛÜÙÚ\x9f"

def cp875 : CodePage where
  name := "cp875"
  aliases := []
  first := 0x04
  characters :=
    "\x9c\x09\x86\x7f\x97\x8d\x8e\x0b\x0c\x0d\x0e\x0f\x10\x11\x12\x13\x9d\x85\x08\x87\x18\x19" ++
    "\x92\x8f\x1c\x1d\x1e\x1f\x80\x81\x82\x83\x84\x0a\x17\x1b\x88\x89\x8a\x8b\x8c\x05\x06\x07" ++
    "\x90\x91\x16\x93\x94\x95\x96\x04\x98\x99\x9a\x9b\x14\x15\x9e\x1a ΑΒΓΔΕΖΗΘΙ[.<(+!&ΚΛΜΝΞΟΠΡΣ]" ++
    "$*);^-/ΤΥΦΧΨΩΪΫ|,%_>?¨ΆΈΉ\u00a0ΊΌΎΏ`:#@'=\"΅abcdefghiαβγδεζ\u00b0jklmnopqrηθικλμ´~stuvwxyzν" ++
    "ξοπρσ£άέήϊίόύϋώςτυφχψ\x7bABCDEFGHI\u00adωΐΰ‘―\x7dJKLMNOPQR±½\x1a·’\u00a6\\\x1aSTUVWXYZ²§" ++
    "\x1a\x1a«¬0123456789³\u00a9\x1a\x1a»\x9f"

def cp1026 : CodePage where
  name := "cp1026"
  aliases := ["1026", "csibm1026", "ibm1026"]
  first := 0x04
  characters :=
    "\x9c\x09\x86\x7f\x97\x8d\x8e\x0b\x0c\x0d\x0e\x0f\x10\x11\x12\x13\x9d\x85\x08\x87\x18\x19" ++
    "\x92\x8f\x1c\x1d\x1e\x1f\x80\x81\x82\x83\x84\x0a\x17\x1b\x88\x89\x8a\x8b\x8c\x05\x06\x07" ++
    "\x90\x91\x16\x93\x94\x95\x96\x04\x98\x99\x9a\x9b\x14\x15\x9e\x1a \u00a0âäàáãå\x7bñÇ.<(+!&éê" ++
    "ëèíîïìßĞİ*);^-/ÂÄÀÁÃÅ[Ñş,%_>?øÉÊËÈÍÎÏÌı:ÖŞ'=ÜØabcdefghi«»\x7d`\u00a6±\u00b0jklmnopqrªºæ¸Æ¤µ" ++
    "östuvwxyz¡¿]$@\u00ae¢£¥·\u00a9§¶¼½¾¬|¯¨´×çABCDEFGHI\u00adô~òóõğJKLMNOPQR¹û\\ùúÿü÷STUVWXYZ²Ô" ++
    "#ÒÓÕ0123456789³Û\"ÙÚ\x9f"

def cp1140 : CodePage where
  name := "cp1140"
  aliases := ["1140", "ibm1140"]
  first := 0x04
  characters :=
    "\x9c\x09\x86\x7f\x97\x8d\x8e\x0b\x0c\x0d\x0e\x0f\x10\x11\x12\x13\x9d\x85\x08\x87\x18\x19" ++
    "\x92\x8f\x1c\x1d\x1e\x1f\x80\x81\x82\x83\x84\x0a\x17\x1b\x88\x89\x8a\x8b\x8c\x05\x06\x07" ++
    "\x90\x91\x16\x93\x94\x95\x96\x04\x98\x99\x9a\x9b\x14\x15\x9e\x1a \u00a0âäàáãåçñ¢.<(+|&éêëèí" ++
    "îïìß!$*);¬-/ÂÄÀÁÃÅÇÑ\u00a6,%_>?øÉÊËÈÍÎÏÌ`:#@'=\"Øabcdefghi«»ðýþ±\u00b0jklmnopqrªºæ¸Æ€µ~stuv" ++
    "wxyz¡¿ÐÝÞ\u00ae^£¥·\u00a9§¶¼½¾[]¯¨´×\x7bABCDEFGHI\u00adôöòóõ\x7dJKLMNOPQR¹ûüùúÿ\\÷STUVWXYZ²" ++
    "ÔÖÒÓÕ0123456789³ÛÜÙÚ\x9f"

/-- The known code pages. -/
def all : List CodePage :=
  [cp437, cp720, cp737, cp775, cp850, cp852, cp855, cp856, cp857, cp858, cp860, cp861, cp862,
   cp863, cp864, cp865, cp866, cp869, cp874, cp1006, cp1125, cp1250, cp1251, cp1252, cp1253,
   cp1254, cp1255, cp1256, cp1257, cp1258, iso8859Part2, iso8859Part3, iso8859Part4, iso8859Part5,
   iso8859Part6, iso8859Part7, iso8859Part8, iso8859Part9, iso8859Part10, iso8859Part11,
   iso8859Part13, iso8859Part14, iso8859Part15, iso8859Part16, koi8R, koi8T, koi8U, kz1048,
   hpRoman8, ptcp154, palmos, tis620, macCroatian, macCyrillic, macGreek, macIceland, macLatin2,
   macRoman, macRomanian, macTurkish, macArabic, macFarsi, cp037, cp273, cp424, cp500, cp875,
   cp1026, cp1140]

end CodePage
end LeadSheet.Text
