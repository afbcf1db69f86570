/-
# Pages by name

The encodings of eight bits that documents name most. Each page gives the
characters of its upper half, in the order of their bytes.

Key definitions: `CodePage.ascii`, `CodePage.latin1`, `CodePage.names`,
`CodePage.ofName?`.
-/
import Formulary.Text.CodePage

namespace Formulary
namespace CodePage

/-! ### Without a table -/

/-- The page that knows ASCII only. -/
def ascii : CodePage := ⟨0x80, []⟩

/-- The page in which each byte is the character of its code. -/
def latin1 : CodePage := ⟨0x100, []⟩

/-! ### Tables -/

/-- Central European letters. -/
def latin2 : CodePage where
  first := 0xA0
  chars :=
    ("\xa0Ą˘Ł¤ĽŚ§¨ŠŞŤŹ\xadŽŻ°ą˛ł´ľś\u02c7¸šşťź˝žżŔÁÂĂÄĹĆÇČÉĘËĚÍÎĎĐŃŇÓÔŐÖ×ŘŮÚŰÜÝŢßŕáâăäĺćçč" ++
      "éęëěíîďđńňóôőö÷řůúűüýţ˙").toList

/-- South European letters. -/
def latin3 : CodePage where
  first := 0xA0
  chars :=
    ("\xa0Ħ˘£¤\ufffdĤ§¨İŞĞĴ\xad\ufffdŻ°ħ²³´µĥ·¸ışğĵ½\ufffdżÀÁÂ\ufffdÄĊĈÇÈÉÊËÌÍÎÏ\ufffdÑÒÓÔ" ++
      "ĠÖ×ĜÙÚÛÜŬŜßàáâ\ufffdäċĉçèéêëìíîï\ufffdñòóôġö÷ĝùúûüŭŝ˙").toList

/-- Letters of the Baltic. -/
def latin4 : CodePage where
  first := 0xA0
  chars :=
    ("\xa0ĄĸŖ¤ĨĻ§¨ŠĒĢŦ\xadŽ¯°ą˛ŗ´ĩļ\u02c7¸šēģŧŊžŋĀÁÂÃÄÅÆĮČÉĘËĖÍÎĪĐŅŌĶÔÕÖ×ØŲÚÛÜŨŪßāáâãäåæįč" ++
      "éęëėíîīđņōķôõö÷øųúûüũū˙").toList

/-- Cyrillic letters. -/
def cyrillic : CodePage where
  first := 0xA0
  chars :=
    ("\xa0ЁЂЃЄЅІЇЈЉЊЋЌ\xadЎЏАБВГДЕЖЗИЙКЛМНОПРСТУФХЦЧШЩЪЫЬЭЮЯабвгдежзийклмнопрстуфхцчшщъыьэ" ++
      "юя№ёђѓєѕіїјљњћќ§ўџ").toList

/-- Arabic letters. -/
def arabic : CodePage where
  first := 0xA0
  chars :=
    ("\xa0\ufffd\ufffd\ufffd¤\ufffd\ufffd\ufffd\ufffd\ufffd\ufffd\ufffd،\xad\ufffd\ufffd" ++
      "\ufffd\ufffd\ufffd\ufffd\ufffd\ufffd\ufffd\ufffd\ufffd\ufffd\ufffd\u061b\ufffd\ufffd" ++
      "\ufffd\u061f\ufffd\u0621\u0622\u0623\u0624\u0625\u0626\u0627\u0628\u0629\u062a\u062b" ++
      "\u062c\u062d\u062e\u062f\u0630\u0631\u0632\u0633\u0634\u0635\u0636\u0637\u0638\u0639" ++
      "\u063a\ufffd\ufffd\ufffd\ufffd\ufffd\u0640\u0641\u0642\u0643\u0644\u0645\u0646\u0647" ++
      "\u0648\u0649\u064a\u064b\u064c\u064d\u064e\u064f\u0650\u0651\u0652\ufffd\ufffd\ufffd" ++
      "\ufffd\ufffd\ufffd\ufffd\ufffd\ufffd\ufffd\ufffd\ufffd\ufffd").toList

/-- Greek letters. -/
def greek : CodePage where
  first := 0xA0
  chars :=
    ("\xa0‘’£€₯¦§¨©ͺ«¬\xad\ufffd―°±²³΄΅Ά·ΈΉΊ»Ό½ΎΏΐΑΒΓΔΕΖΗΘΙΚΛΜΝΞΟΠΡ\ufffdΣΤΥΦΧΨΩΪΫάέήίΰαβγ" ++
      "δεζηθικλμνξοπρςστυφχψωϊϋόύώ\ufffd").toList

/-- Hebrew letters. -/
def hebrew : CodePage where
  first := 0xA0
  chars :=
    ("\xa0\ufffd¢£¤¥¦§¨©×«¬\xad®¯°±²³´µ¶·¸¹÷»¼½¾\ufffd\ufffd\ufffd\ufffd\ufffd\ufffd\ufffd" ++
      "\ufffd\ufffd\ufffd\ufffd\ufffd\ufffd\ufffd\ufffd\ufffd\ufffd\ufffd\ufffd\ufffd\ufffd" ++
      "\ufffd\ufffd\ufffd\ufffd\ufffd\ufffd\ufffd\ufffd\ufffd\ufffd\ufffd‗\u05d0\u05d1" ++
      "\u05d2\u05d3\u05d4\u05d5\u05d6\u05d7\u05d8\u05d9\u05da\u05db\u05dc\u05dd\u05de\u05df" ++
      "\u05e0\u05e1\u05e2\u05e3\u05e4\u05e5\u05e6\u05e7\u05e8\u05e9\u05ea\ufffd\ufffd\u200e" ++
      "\u200f\ufffd").toList

/-- Turkish letters. -/
def latin5 : CodePage where
  first := 0xA0
  chars :=
    ("\xa0¡¢£¤¥¦§¨©ª«¬\xad®¯°±²³´µ¶·¸¹º»¼½¾¿ÀÁÂÃÄÅÆÇÈÉÊËÌÍÎÏĞÑÒÓÔÕÖ×ØÙÚÛÜİŞßàáâãäåæçèéêëìí" ++
      "îïğñòóôõö÷øùúûüışÿ").toList

/-- Nordic letters. -/
def latin6 : CodePage where
  first := 0xA0
  chars :=
    ("\xa0ĄĒĢĪĨĶ§ĻĐŠŦŽ\xadŪŊ°ąēģīĩķ·ļđšŧž―ūŋĀÁÂÃÄÅÆĮČÉĘËĖÍÎÏÐŅŌÓÔÕÖŨØŲÚÛÜÝÞßāáâãäåæįčéęëėí" ++
      "îïðņōóôõöũøųúûüýþĸ").toList

/-- Thai letters. -/
def thai : CodePage where
  first := 0xA0
  chars :=
    ("\xa0กขฃคฅฆงจฉชซฌญฎฏฐฑฒณดตถทธนบปผฝพฟภมยรฤลฦวศษสหฬอฮฯะ\u0e31าำ\u0e34\u0e35\u0e36\u0e37" ++
      "\u0e38\u0e39\u0e3a\ufffd\ufffd\ufffd\ufffd฿เแโใไๅๆ\u0e47\u0e48\u0e49\u0e4a\u0e4b" ++
      "\u0e4c\u0e4d\u0e4e๏๐๑๒๓๔๕๖๗๘๙๚๛\ufffd\ufffd\ufffd\ufffd").toList

/-- Letters of the Baltic and typographic marks. -/
def latin7 : CodePage where
  first := 0xA0
  chars :=
    ("\xa0”¢£¤„¦§Ø©Ŗ«¬\xad®Æ°±²³“µ¶·ø¹ŗ»¼½¾æĄĮĀĆÄÅĘĒČÉŹĖĢĶĪĻŠŃŅÓŌÕÖ×ŲŁŚŪÜŻŽßąįāćäåęēčéźėģķ" ++
      "īļšńņóōõö÷ųłśūüżž’").toList

/-- Celtic letters. -/
def latin8 : CodePage where
  first := 0xA0
  chars :=
    ("\xa0Ḃḃ£ĊċḊ§Ẁ©ẂḋỲ\xad®ŸḞḟĠġṀṁ¶ṖẁṗẃṠỳẄẅṡÀÁÂÃÄÅÆÇÈÉÊËÌÍÎÏŴÑÒÓÔÕÖṪØÙÚÛÜÝŶßàáâãäåæçèéêëìí" ++
      "îïŵñòóôõöṫøùúûüýŷÿ").toList

/-- Western European letters with the euro sign. -/
def latin9 : CodePage where
  first := 0xA0
  chars :=
    ("\xa0¡¢£€¥Š§š©ª«¬\xad®¯°±²³Žµ¶·ž¹º»ŒœŸ¿ÀÁÂÃÄÅÆÇÈÉÊËÌÍÎÏÐÑÒÓÔÕÖ×ØÙÚÛÜÝÞßàáâãäåæçèéêëìí" ++
      "îïðñòóôõö÷øùúûüýþÿ").toList

/-- South-eastern European letters. -/
def latin10 : CodePage where
  first := 0xA0
  chars :=
    ("\xa0ĄąŁ€„Š§š©Ș«Ź\xadźŻ°±ČłŽ”¶·žčș»ŒœŸżÀÁÂĂÄĆÆÇÈÉÊËÌÍÎÏĐŃÒÓÔŐÖŚŰÙÚÛÜĘȚßàáâăäćæçèéêëìí" ++
      "îïđńòóôőöśűùúûüęțÿ").toList

/-- Russian letters in the order of the Latin ones, and box drawing. -/
def koiRussian : CodePage where
  first := 0x80
  chars :=
    ("─│┌┐└┘├┤┬┴┼▀▄█▌▐░▒▓⌠■∙√≈≤≥\xa0⌡°²·÷═║╒ё╓╔╕╖╗╘╙╚╛╜╝╞╟╠╡Ё╢╣╤╥╦╧╨╩╪╫╬©юабцдефгхийклмноп" ++
      "ярстужвьызшэщчъЮАБЦДЕФГХИЙКЛМНОПЯРСТУЖВЬЫЗШЭЩЧЪ").toList

/-- Ukrainian letters in the order of the Latin ones, and box drawing. -/
def koiUkrainian : CodePage where
  first := 0x80
  chars :=
    ("─│┌┐└┘├┤┬┴┼▀▄█▌▐░▒▓⌠■∙√≈≤≥\xa0⌡°²·÷═║╒ёє╔ії╗╘╙╚╛ґ╝╞╟╠╡ЁЄ╣ІЇ╦╧╨╩╪Ґ╬©юабцдефгхийклмноп" ++
      "ярстужвьызшэщчъЮАБЦДЕФГХИЙКЛМНОПЯРСТУЖВЬЫЗШЭЩЧЪ").toList

/-- Central European letters and typographic marks. -/
def windowsCentral : CodePage where
  first := 0x80
  chars :=
    ("€\ufffd‚\ufffd„…†‡\ufffd‰Š‹ŚŤŽŹ\ufffd‘’“”•–—\ufffd™š›śťžź\xa0\u02c7˘Ł¤Ą¦§¨©Ş«¬\xad®Ż" ++
      "°±˛ł´µ¶·¸ąş»Ľ˝ľżŔÁÂĂÄĹĆÇČÉĘËĚÍÎĎĐŃŇÓÔŐÖ×ŘŮÚŰÜÝŢßŕáâăäĺćçčéęëěíîďđńňóôőö÷řůúűüýţ˙").toList

/-- Cyrillic letters and typographic marks. -/
def windowsCyrillic : CodePage where
  first := 0x80
  chars :=
    ("ЂЃ‚ѓ„…†‡€‰Љ‹ЊЌЋЏђ‘’“”•–—\ufffd™љ›њќћџ\xa0ЎўЈ¤Ґ¦§Ё©Є«¬\xad®Ї°±Ііґµ¶·ё№є»јЅѕїАБВГДЕЖЗИ" ++
      "ЙКЛМНОПРСТУФХЦЧШЩЪЫЬЭЮЯабвгдежзийклмнопрстуфхцчшщъыьэюя").toList

/-- Western European letters and typographic marks. -/
def windowsLatin : CodePage where
  first := 0x80
  chars :=
    ("€\ufffd‚ƒ„…†‡\u02c6‰Š‹Œ\ufffdŽ\ufffd\ufffd‘’“”•–—˜™š›œ\ufffdžŸ\xa0¡¢£¤¥¦§¨©ª«¬\xad®¯" ++
      "°±²³´µ¶·¸¹º»¼½¾¿ÀÁÂÃÄÅÆÇÈÉÊËÌÍÎÏÐÑÒÓÔÕÖ×ØÙÚÛÜÝÞßàáâãäåæçèéêëìíîïðñòóôõö÷øùúûüýþÿ").toList

/-- Greek letters and typographic marks. -/
def windowsGreek : CodePage where
  first := 0x80
  chars :=
    ("€\ufffd‚ƒ„…†‡\ufffd‰\ufffd‹\ufffd\ufffd\ufffd\ufffd\ufffd‘’“”•–—\ufffd™\ufffd›\ufffd" ++
      "\ufffd\ufffd\ufffd\xa0΅Ά£¤¥¦§¨©\ufffd«¬\xad®―°±²³΄µ¶·ΈΉΊ»Ό½ΎΏΐΑΒΓΔΕΖΗΘΙΚΛΜΝΞΟΠΡ" ++
      "\ufffdΣΤΥΦΧΨΩΪΫάέήίΰαβγδεζηθικλμνξοπρςστυφχψωϊϋόύώ\ufffd").toList

/-- Turkish letters and typographic marks. -/
def windowsTurkish : CodePage where
  first := 0x80
  chars :=
    ("€\ufffd‚ƒ„…†‡\u02c6‰Š‹Œ\ufffd\ufffd\ufffd\ufffd‘’“”•–—˜™š›œ\ufffd\ufffdŸ\xa0¡¢£¤¥¦§¨" ++
      "©ª«¬\xad®¯°±²³´µ¶·¸¹º»¼½¾¿ÀÁÂÃÄÅÆÇÈÉÊËÌÍÎÏĞÑÒÓÔÕÖ×ØÙÚÛÜİŞßàáâãäåæçèéêëìíîïğñòóôõö÷øù" ++
      "úûüışÿ").toList

/-- Hebrew letters and typographic marks. -/
def windowsHebrew : CodePage where
  first := 0x80
  chars :=
    ("€\ufffd‚ƒ„…†‡\u02c6‰\ufffd‹\ufffd\ufffd\ufffd\ufffd\ufffd‘’“”•–—˜™\ufffd›\ufffd" ++
      "\ufffd\ufffd\ufffd\xa0¡¢£₪¥¦§¨©×«¬\xad®¯°±²³´µ¶·¸¹÷»¼½¾¿\u05b0\u05b1\u05b2\u05b3" ++
      "\u05b4\u05b5\u05b6\u05b7\u05b8\u05b9\ufffd\u05bb\u05bc\u05bd\u05be\u05bf\u05c0\u05c1" ++
      "\u05c2\u05c3\u05f0\u05f1\u05f2\u05f3\u05f4\ufffd\ufffd\ufffd\ufffd\ufffd\ufffd\ufffd" ++
      "\u05d0\u05d1\u05d2\u05d3\u05d4\u05d5\u05d6\u05d7\u05d8\u05d9\u05da\u05db\u05dc\u05dd" ++
      "\u05de\u05df\u05e0\u05e1\u05e2\u05e3\u05e4\u05e5\u05e6\u05e7\u05e8\u05e9\u05ea\ufffd" ++
      "\ufffd\u200e\u200f\ufffd").toList

/-- Arabic letters and typographic marks. -/
def windowsArabic : CodePage where
  first := 0x80
  chars :=
    ("€\u067e‚ƒ„…†‡\u02c6‰\u0679‹Œ\u0686\u0698\u0688\u06af‘’“”•–—\u06a9™\u0691›œ\u200c" ++
      "\u200d\u06ba\xa0،¢£¤¥¦§¨©\u06be«¬\xad®¯°±²³´µ¶·¸¹\u061b»¼½¾\u061f\u06c1\u0621\u0622" ++
      "\u0623\u0624\u0625\u0626\u0627\u0628\u0629\u062a\u062b\u062c\u062d\u062e\u062f\u0630" ++
      "\u0631\u0632\u0633\u0634\u0635\u0636×\u0637\u0638\u0639\u063a\u0640\u0641\u0642" ++
      "\u0643à\u0644â\u0645\u0646\u0647\u0648çèéêë\u0649\u064aîï\u064b\u064c\u064d\u064eô" ++
      "\u064f\u0650÷\u0651ù\u0652ûü\u200e\u200f\u06d2").toList

/-- Letters of the Baltic and typographic marks. -/
def windowsBaltic : CodePage where
  first := 0x80
  chars :=
    ("€\ufffd‚\ufffd„…†‡\ufffd‰\ufffd‹\ufffd¨\u02c7¸\ufffd‘’“”•–—\ufffd™\ufffd›\ufffd¯˛" ++
      "\ufffd\xa0\ufffd¢£¤\ufffd¦§Ø©Ŗ«¬\xad®Æ°±²³´µ¶·ø¹ŗ»¼½¾æĄĮĀĆÄÅĘĒČÉŹĖĢĶĪĻŠŃŅÓŌÕÖ×ŲŁŚŪÜŻ" ++
      "Žßąįāćäåęēčéźėģķīļšńņóōõö÷ųłśūüżž˙").toList

/-- Vietnamese letters and typographic marks. -/
def windowsVietnamese : CodePage where
  first := 0x80
  chars :=
    ("€\ufffd‚ƒ„…†‡\u02c6‰\ufffd‹Œ\ufffd\ufffd\ufffd\ufffd‘’“”•–—˜™\ufffd›œ\ufffd\ufffdŸ" ++
      "\xa0¡¢£¤¥¦§¨©ª«¬\xad®¯°±²³´µ¶·¸¹º»¼½¾¿ÀÁÂĂÄÅÆÇÈÉÊË\u0300ÍÎÏĐÑ\u0309ÓÔƠÖ×ØÙÚÛÜƯ\u0303" ++
      "ßàáâăäåæçèéêë\u0301íîïđñ\u0323óôơö÷øùúûüư₫ÿ").toList

/-- Western European letters and box drawing. -/
def consoleLatin : CodePage where
  first := 0x80
  chars :=
    ("ÇüéâäàåçêëèïîìÄÅÉæÆôöòûùÿÖÜø£Ø×ƒáíóúñÑªº¿®¬½¼¡«»░▒▓│┤ÁÂÀ©╣║╗╝¢¥┐└┴┬├─┼ãÃ╚╔╩╦╠═╬¤ðÐÊË" ++
      "ÈıÍÎÏ┘┌█▄¦Ì▀ÓßÔÒõÕµþÞÚÛÙýÝ¯´\xad±‗¾¶§÷¸°¨·¹³²■\xa0").toList

/-- Hebrew letters and box drawing. -/
def consoleHebrew : CodePage where
  first := 0x80
  chars :=
    ("\u05d0\u05d1\u05d2\u05d3\u05d4\u05d5\u05d6\u05d7\u05d8\u05d9\u05da\u05db\u05dc\u05dd" ++
      "\u05de\u05df\u05e0\u05e1\u05e2\u05e3\u05e4\u05e5\u05e6\u05e7\u05e8\u05e9\u05ea¢£¥₧ƒá" ++
      "íóúñÑªº¿⌐¬½¼¡«»░▒▓│┤╡╢╖╕╣║╗╝╜╛┐└┴┬├─┼╞╟╚╔╩╦╠═╬╧╨╤╥╙╘╒╓╫╪┘┌█▄▌▐▀αßΓπΣσµτΦΘΩδ∞φε∩≡±≥≤⌠" ++
      "⌡÷≈°∙·√ⁿ²■\xa0").toList

/-- Cyrillic letters and box drawing. -/
def consoleCyrillic : CodePage where
  first := 0x80
  chars :=
    ("АБВГДЕЖЗИЙКЛМНОПРСТУФХЦЧШЩЪЫЬЭЮЯабвгдежзийклмноп░▒▓│┤╡╢╖╕╣║╗╝╜╛┐└┴┬├─┼╞╟╚╔╩╦╠═╬╧╨╤╥╙" ++
      "╘╒╓╫╪┘┌█▄▌▐▀рстуфхцчшщъыьэюяЁёЄєЇїЎў°∙·√№¤■\xa0").toList

/-- Western European letters and mathematical signs. -/
def macintosh : CodePage where
  first := 0x80
  chars :=
    ("ÄÅÇÉÑÖÜáàâäãåçéèêëíìîïñóòôöõúùûü†°¢£§•¶ß®©™´¨≠ÆØ∞±≤≥¥µ∂∑∏π∫ªºΩæø¿¡¬√ƒ≈∆«»…\xa0ÀÃÕŒœ–" ++
      "—“”‘’÷◊ÿŸ⁄€‹›ﬁﬂ‡·‚„‰ÂÊÁËÈÍÎÏÌÓÔ\uf8ffÒÚÛÙı\u02c6˜¯˘˙˚¸˝˛\u02c7").toList

/-! ### Names -/

/-- The names of the pages, in lower case. -/
def names : List (List String × CodePage) :=
  [(["ascii", "us-ascii", "us", "ansi_x3.4-1968", "ansi_x3.4-1986", "iso646-us", "iso-ir-6",
      "cp367", "ibm367", "csascii"], ascii),
   (["iso-8859-1", "iso_8859-1", "iso8859-1", "iso-latin-1", "latin1", "l1",
      "iso-ir-100", "cp819", "ibm819", "csisolatin1"], latin1),
   (["iso-8859-2", "iso_8859-2", "iso8859-2", "iso-latin-2", "latin2", "l2", "iso-ir-101",
      "csisolatin2"], latin2),
   (["iso-8859-3", "iso_8859-3", "iso8859-3", "latin3", "l3", "iso-ir-109", "csisolatin3"], latin3),
   (["iso-8859-4", "iso_8859-4", "iso8859-4", "latin4", "l4", "iso-ir-110", "csisolatin4"], latin4),
   (["iso-8859-5", "iso_8859-5", "iso8859-5", "cyrillic", "iso-ir-144", "csisolatincyrillic"],
      cyrillic),
   (["iso-8859-6", "iso_8859-6", "iso8859-6", "arabic", "asmo-708", "ecma-114", "iso-ir-127",
      "csisolatinarabic"], arabic),
   (["iso-8859-7", "iso_8859-7", "iso8859-7", "greek", "greek8", "ecma-118", "elot_928",
      "iso-ir-126", "csisolatingreek"], greek),
   (["iso-8859-8", "iso_8859-8", "iso8859-8", "hebrew", "iso-ir-138", "csisolatinhebrew"], hebrew),
   (["iso-8859-9", "iso_8859-9", "iso8859-9", "latin5", "l5", "iso-ir-148", "csisolatin5"], latin5),
   (["iso-8859-10", "iso_8859-10", "iso8859-10", "latin6", "l6", "iso-ir-157", "csisolatin6"],
      latin6),
   (["iso-8859-11", "iso_8859-11", "iso8859-11"], thai),
   (["iso-8859-13", "iso_8859-13", "iso8859-13", "latin7", "l7", "iso-ir-179"], latin7),
   (["iso-8859-14", "iso_8859-14", "iso8859-14", "latin8", "l8", "iso-celtic", "iso-ir-199"],
      latin8),
   (["iso-8859-15", "iso_8859-15", "iso8859-15", "latin-9", "iso-ir-203"], latin9),
   (["iso-8859-16", "iso_8859-16", "iso8859-16", "latin10", "l10", "iso-ir-226"], latin10),
   (["koi8-r", "cskoi8r"], koiRussian),
   (["koi8-u"], koiUkrainian),
   (["windows-1250", "cp1250", "ms-ee"], windowsCentral),
   (["windows-1251", "cp1251", "ms-cyrl"], windowsCyrillic),
   (["windows-1252", "cp1252", "ms-ansi"], windowsLatin),
   (["windows-1253", "cp1253", "ms-greek"], windowsGreek),
   (["windows-1254", "cp1254", "ms-turk"], windowsTurkish),
   (["windows-1255", "cp1255", "ms-hebr"], windowsHebrew),
   (["windows-1256", "cp1256", "ms-arab"], windowsArabic),
   (["windows-1257", "cp1257", "winbaltrim"], windowsBaltic),
   (["windows-1258", "cp1258"], windowsVietnamese),
   (["cp850", "ibm850", "cspc850multilingual"], consoleLatin),
   (["cp862", "ibm862", "cspc862latinhebrew"], consoleHebrew),
   (["cp866", "ibm866", "csibm866"], consoleCyrillic),
   (["macintosh", "macroman", "mac", "csmacintosh"], macintosh)]

/-- The names of encodings with more than one byte to a character, whose bytes
below 128 are those of ASCII. -/
def mixedNames : List String :=
  ["gbk", "cp936", "ms936", "windows-936", "gb2312", "euc-cn", "gb18030", "big5", "big-five",
   "cp950", "big5-hkscs", "shift_jis", "shift-jis", "sjis", "ms_kanji", "cp932", "euc-jp",
   "eucjp", "euc-kr", "euckr", "cp949", "uhc", "euc-tw"]

/-- The page with a name in any case. Of an encoding with more than one byte
to a character only ASCII is known. -/
def ofName? (name : Text) : Option CodePage :=
  let name := name.map Char.toLower
  match names.find? fun p => p.1.any fun n => n.toList == name with
  | some p => some p.2
  | none => if mixedNames.any fun n => n.toList == name then some ascii else none

end CodePage
end Formulary
